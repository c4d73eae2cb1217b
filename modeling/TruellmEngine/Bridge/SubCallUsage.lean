/-
  What a request reports of the tokens of its sub-calls.

  Three counters stand as texts in the metadata of the context. A sub-call whose generation
  succeeds reads, adds and stores them in one step, and the response reads them. The client's
  metadata is merged into the same map before.

  `usage_exact_iff`: the report is exact where the client's values of the counters read as what
  the sub-calls leave out, which is 0 for the tokens, and for the count the number of those that
  the preprocessor chain has answered.
-/
import TruellmEngine.Bridge.SubCalls
import TruellmEngine.Lib.Decimal

namespace TruellmEngine.Bridge

open Lib

/-! ## The client's metadata -/

namespace Context

def set (ctx : Context) (key : String) (val : Option String) : Context where
  metadata := Function.update ctx.metadata key val

def mergeObject (text : JsonText) (obj : Json) (ctx : Context) : Except TypeError Context :=
  match obj with
  | .object fields =>
    fields.foldlM (fun ctx f =>
      match f.2 with
      | .string s => pure (ctx.set f.1 (some s))
      | v => do return ctx.set f.1 (some (← text.dumps v))) ctx
  | _ => pure ctx

/-- `extra_body.truellm.context_metadata` -/
def contextMetadata (body : Json) : Option Json :=
  (((body.field? "extra_body").filter Json.isObject).bind fun eb =>
    (eb.field? "truellm").filter Json.isObject).bind (Json.field? "context_metadata")

/-- The body in two places, and a header. -/
def absorbClientMetadata (text : JsonText) (body : Json) (header : String) (ctx : Context) :
    Except TypeError Context := do
  let ctx ← (contextMetadata body).elim (pure ctx) fun obj => ctx.mergeObject text obj
  let ctx ← (body.field? "truellm_metadata").elim (pure ctx) fun obj => ctx.mergeObject text obj
  if header = "" then pure ctx
  else (text.parse (bytes header)).elim (pure ctx) fun obj => ctx.mergeObject text obj

/-! ## The counters -/

/-- `std::stoll`, and 0 where it throws. -/
def pull (ctx : Context) (k : String) : Int64 := ((ctx.metadata k).bind stoll).getD 0

def bump (k : String) (delta : Int64) (ctx : Context) : Context :=
  ctx.set k (some (decimal (ctx.pull k + delta)))

theorem pull_bump_self (k : String) (delta : Int64) (ctx : Context) :
    (ctx.bump k delta).pull k = ctx.pull k + delta := by
  change (((Function.update ctx.metadata k _) k).bind stoll).getD 0 = _
  rw [Function.update_self, Option.bind_some, stoll_decimal]
  rfl

theorem pull_set_of_ne {k k' : String} (h : k' ≠ k) (ctx : Context) (val : Option String) :
    (ctx.set k val).pull k' = ctx.pull k' := by
  unfold pull set
  dsimp only
  rw [Function.update_of_ne h]

theorem pull_bump_of_ne {k k' : String} (h : k' ≠ k) (delta : Int64) (ctx : Context) :
    (ctx.bump k delta).pull k' = ctx.pull k' :=
  pull_set_of_ne h ctx _

end Context

/-- What the generation of a sub-call reports. -/
structure SubCallTokens where
  promptTokens : Int32
  generatedTokens : Int32

inductive Counter where
  | promptTokens
  | completionTokens
  | count

namespace Counter

def key : Counter → String
  | .promptTokens => "research.subcall_prompt_tokens"
  | .completionTokens => "research.subcall_completion_tokens"
  | .count => "research.subcall_count"

/-- What a sub-call adds. -/
def amount (r : SubCallTokens) : Counter → Int
  | .promptTokens => r.promptTokens.toInt
  | .completionTokens => r.generatedTokens.toInt
  | .count => 1

end Counter

/-- The end of `vtable_call_engine`, under one lock. -/
def account (r : SubCallTokens) (ctx : Context) : Context :=
  ((ctx.bump Counter.promptTokens.key r.promptTokens.toInt64).bump
    Counter.completionTokens.key r.generatedTokens.toInt64).bump Counter.count.key 1

structure ResearchUsage where
  researchPromptTokens : Int64
  researchCompletionTokens : Int64
  researchTotalTokens : Int64
  researchSubcallCount : Int64

/-- The fields that `merge_subcall_usage` adds, if any. -/
def mergeSubcallUsage (ctx : Context) : Option ResearchUsage :=
  let subPrompt := ctx.pull Counter.promptTokens.key
  let subCompletion := ctx.pull Counter.completionTokens.key
  let subCount := ctx.pull Counter.count.key
  if subCount ≤ 0 then none
  else some {
    researchPromptTokens := subPrompt
    researchCompletionTokens := subCompletion
    researchTotalTokens := subPrompt + subCompletion
    researchSubcallCount := subCount }

theorem pull_account (r : SubCallTokens) (ctx : Context) (c : Counter) :
    (account r ctx).pull c.key = ctx.pull c.key + Int64.ofInt (c.amount r) := by
  unfold account
  cases c with
  | promptTokens =>
    rw [Context.pull_bump_of_ne (by decide), Context.pull_bump_of_ne (by decide)]
    exact Context.pull_bump_self _ _ _
  | completionTokens =>
    rw [Context.pull_bump_of_ne (by decide)]
    refine (Context.pull_bump_self _ _ _).trans ?_
    rw [Context.pull_bump_of_ne (by decide)]
    rfl
  | count =>
    refine (Context.pull_bump_self _ _ _).trans ?_
    rw [Context.pull_bump_of_ne (by decide), Context.pull_bump_of_ne (by decide)]
    rfl

/-! ## Runs -/

/-- The sub-calls of a request and its context. -/
structure RequestUsage where
  calls : RequestCalls := {}
  ctx : Context

namespace RequestUsage

inductive Move where
  | call (m : RequestCalls.Move)
  /-- A plugin, or `call_engine` itself with a session, writes to the metadata. -/
  | setContextMetadata (key : String) (val : Option String)

variable (cfg : SubCallConfig) (tokens : Nat → SubCallTokens)

/-- `tokens id` is what the generation of invocation `id` reports. -/
def step (s : RequestUsage) : Move → Option RequestUsage
  | .call m => (s.calls.step cfg m).map fun calls =>
    match m with
    | .generated id true => { calls := calls, ctx := account (tokens id) s.ctx }
    | _ => { s with calls := calls }
  | .setContextMetadata key val => some { s with ctx := s.ctx.set key val }

/-- The sub-calls that have returned `TRUELLM_OK` after a generation. -/
def generatedCalls (moves : List Move) : List Nat :=
  moves.filterMap fun
    | .call (.generated id true) => some id
    | _ => none

/-- Those that the chain has answered. -/
def respondedCalls (moves : List Move) : List Nat :=
  moves.filterMap fun
    | .call (.chainEnds id .respond) => some id
    | _ => none

def succeeded (moves : List Move) : Nat :=
  (generatedCalls moves).length + (respondedCalls moves).length

/-- The sum over the sub-calls; one that the chain has answered uses no tokens. -/
def total (c : Counter) (moves : List Move) : Int :=
  ((generatedCalls moves).map fun id => c.amount (tokens id)).sum

/-- The report is the sums over the sub-calls that have succeeded. -/
def Exact (moves : List Move) (usage : Option ResearchUsage) : Prop :=
  if succeeded moves = 0 then usage = none
  else ∃ u ∈ usage,
    u.researchPromptTokens.toInt = total tokens .promptTokens moves ∧
    u.researchCompletionTokens.toInt = total tokens .completionTokens moves ∧
    u.researchSubcallCount.toInt = succeeded moves

def Fits (i : Int) : Prop := -2 ^ 63 ≤ i ∧ i < 2 ^ 63

/-- What the counters have to be before the first sub-call. -/
def Uncounted (ctx : Context) (moves : List Move) : Prop :=
  if succeeded moves = 0 then ctx.pull Counter.count.key ≤ 0
  else
    (ctx.pull Counter.promptTokens.key = 0 ∧
        Fits (total tokens .promptTokens moves)) ∧
      (ctx.pull Counter.completionTokens.key = 0 ∧
        Fits (total tokens .completionTokens moves)) ∧
      (ctx.pull Counter.count.key).toInt = (respondedCalls moves).length ∧
        Fits (succeeded moves)

variable {cfg} {tokens} {s t : RequestUsage}

theorem total_cons (c : Counter) (m : Move) (moves : List Move) :
    total tokens c (m :: moves) = total tokens c [m] + total tokens c moves := by
  unfold total generatedCalls
  rw [← List.singleton_append, List.filterMap_append, List.map_append, List.sum_append]

/-- One move: a counter that is not written grows by what the move's sub-call used. -/
theorem pull_step {m : Move} {c : Counter} (h : s.step cfg tokens m = some t)
    (hm : ∀ val, m ≠ .setContextMetadata c.key val) :
    t.ctx.pull c.key = s.ctx.pull c.key + Int64.ofInt (total tokens c [m]) := by
  have hzero : s.ctx.pull c.key = s.ctx.pull c.key + Int64.ofInt 0 := (Int64.add_zero _).symm
  cases m with
  | setContextMetadata key val =>
    cases h
    have hne : c.key ≠ key := by
      rintro rfl
      exact hm val rfl
    exact (Context.pull_set_of_ne hne s.ctx val).trans hzero
  | call m =>
    obtain ⟨calls, -, rfl⟩ := Option.map_eq_some_iff.mp h
    cases m with
    | enter caller hasMessages runPreprocessors => exact hzero
    | chainEnds id decision =>
      cases decision <;> exact hzero
    | generated id ok =>
      cases ok with
      | false => exact hzero
      | true =>
        refine (pull_account (tokens id) s.ctx c).trans ?_
        unfold total generatedCalls
        simp

theorem pull_run {moves : List Move} {c : Counter} (h : run (step cfg tokens) s moves = some t)
    (hmoves : ∀ val, .setContextMetadata c.key val ∉ moves) :
    t.ctx.pull c.key = s.ctx.pull c.key + Int64.ofInt (total tokens c moves) := by
  induction moves generalizing s with
  | nil =>
    cases h
    exact (Int64.add_zero _).symm
  | cons m moves ih =>
    obtain ⟨u, hu, hrest⟩ := run_cons.mp h
    have hstep := pull_step (c := c) hu fun val heq => hmoves val (heq ▸ List.mem_cons_self)
    rw [ih hrest fun val hval => hmoves val (List.mem_cons_of_mem m hval), hstep,
      total_cons c m moves, Int64.ofInt_add, Int64.add_assoc]

theorem total_count (moves : List Move) :
    total tokens .count moves = (generatedCalls moves).length := by
  unfold total
  simp [Counter.amount]

/-- Counting from `a` gives the sum and `d` more just if `a` is `d`, without overflow. -/
theorem add_exact_iff (a : Int64) (sum d : Int) (hd : Fits (sum + d) → Fits d) :
    (a + Int64.ofInt sum).toInt = sum + d ↔ a.toInt = d ∧ Fits (sum + d) := by
  constructor
  · intro h
    have hfits : Fits (sum + d) := h ▸ ⟨Int64.le_toInt _, Int64.toInt_lt _⟩
    have hsum : a + Int64.ofInt sum = Int64.ofInt d + Int64.ofInt sum := by
      rw [← Int64.ofInt_toInt (a + _), h, Int64.ofInt_add, Int64.add_comm]
    rw [(Int64.add_left_inj _).mp hsum]
    exact ⟨Int64.toInt_ofInt_of_le (hd hfits).1 (hd hfits).2, hfits⟩
  · rintro ⟨rfl, hfits⟩
    have ha : a + Int64.ofInt sum = Int64.ofInt (sum + a.toInt) := by
      rw [Int64.ofInt_add, Int64.ofInt_toInt, Int64.add_comm]
    rw [ha]
    exact Int64.toInt_ofInt_of_le hfits.1 hfits.2

theorem fits_of_le {i j : Int} (hi : 0 ≤ i) (hle : i ≤ j) (h : Fits j) : Fits i := by
  unfold Fits at h ⊢
  omega

theorem mergeSubcallUsage_eq_none {ctx : Context} :
    mergeSubcallUsage ctx = none ↔ ctx.pull Counter.count.key ≤ 0 := by
  unfold mergeSubcallUsage
  dsimp only
  split
  · rename_i hle
    exact iff_of_true rfl hle
  · rename_i hle
    exact iff_of_false (Option.some_ne_none _) hle

/-- In a run of sub-calls, with any other writes to the metadata between, the report is exact
    just if the counters were as they have to be before. -/
theorem usage_exact_iff {moves : List Move} (hrun : run (step cfg tokens) s moves = some t)
    (hmoves : ∀ (c : Counter) val, .setContextMetadata c.key val ∉ moves) :
    Exact tokens moves (mergeSubcallUsage t.ctx) ↔ Uncounted tokens s.ctx moves := by
  have hprompt := pull_run hrun (hmoves .promptTokens)
  have hcompletion := pull_run hrun (hmoves .completionTokens)
  have hcount := pull_run hrun (hmoves .count)
  rw [total_count] at hcount
  unfold Exact Uncounted
  by_cases hnone : succeeded moves = 0
  · have hgenerated : (generatedCalls moves).length = 0 := by
      unfold succeeded at hnone
      omega
    rw [if_pos hnone, if_pos hnone, mergeSubcallUsage_eq_none, hcount, hgenerated]
    exact iff_of_eq (congrArg (· ≤ 0) (Int64.add_zero _))
  · rw [if_neg hnone, if_neg hnone]
    have hzero : ∀ (a : Int64) (sum : Int),
        (a + Int64.ofInt sum).toInt = sum ↔ a = 0 ∧ Fits sum := by
      intro a sum
      have h := add_exact_iff a sum 0 fun _ => ⟨by omega, by omega⟩
      rw [Int.add_zero] at h
      rw [h, ← Int64.toInt_inj]
      rfl
    have hadded := add_exact_iff (s.ctx.pull Counter.count.key) (generatedCalls moves).length
      (respondedCalls moves).length (fits_of_le (by omega) (by omega))
    have hsucceeded : ((generatedCalls moves).length : Int) + (respondedCalls moves).length =
        succeeded moves := (Int.natCast_add _ _).symm
    rw [hsucceeded] at hadded
    rw [← hzero, ← hzero, ← hadded, ← hprompt, ← hcompletion, ← hcount]
    constructor
    · rintro ⟨u, hu, hsums⟩
      unfold mergeSubcallUsage at hu
      dsimp only at hu
      split at hu
      · cases hu
      · cases hu
        exact hsums
    · rintro hsums
      refine ⟨_, if_neg ?_, hsums⟩
      rw [Int64.le_iff_toInt_le, hsums.2.2]
      exact fun hle => hnone (Int.natCast_eq_zero.mp (Int.le_antisymm hle (Int.natCast_nonneg _)))

/-- The context of a client that counts five sub-calls itself. -/
def preset : Context :=
  ({} : Context).set Counter.count.key (some "5")

/-- A body that makes this context, and five sub-calls are reported without one. -/
theorem preset_reported :
    (∀ text, Context.absorbClientMetadata text
      (.object [("truellm_metadata", .object [(Counter.count.key, .string "5")])]) "" {} =
        .ok preset) ∧
      (mergeSubcallUsage preset).map (·.researchSubcallCount) = some 5 ∧
      ¬ Exact (fun _ => ⟨0, 0⟩) [] (mergeSubcallUsage preset) := by
  have hcount : (mergeSubcallUsage preset).map (·.researchSubcallCount) = some 5 := by
    decide +kernel
  refine ⟨fun text => rfl, hcount, fun h => ?_⟩
  have hnone : mergeSubcallUsage preset = none := h
  rw [hnone] at hcount
  cases hcount

/-- One sub-call for a client that sets no counter. -/
theorem one_call_exact :
    Exact (fun _ => ⟨10, 5⟩) [.call (.enter none true false), .call (.generated 0 true)]
      (mergeSubcallUsage (account ⟨10, 5⟩ {})) := by
  let t : RequestUsage := {
    calls := { callEngineSubcalls := 1, maxRecursionDepthReached := 1, returned := [.ok] }
    ctx := account ⟨10, 5⟩ {} }
  have hrun : run (step ⟨1, true, false⟩ fun _ => ⟨10, 5⟩) { ctx := {} }
      [.call (.enter none true false), .call (.generated 0 true)] = some t := rfl
  refine (usage_exact_iff (t := t) hrun ?_).mpr ?_
  · intro c val h
    simp at h
  · unfold Uncounted Fits
    decide

end RequestUsage

end TruellmEngine.Bridge
