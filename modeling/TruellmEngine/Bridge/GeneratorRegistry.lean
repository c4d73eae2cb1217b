/-
  The generator registry: plugins that answer a request in place of the engine. The first
  generator that claims a request also answers it.

  `dispatch_unclaimed`: without a claim nobody answers. The loop that asks whether a request is
  claimed and the one that dispatches it agree exactly where the first generator that claims it
  has a function to generate with (`claims_agree_iff`); `claimed_not_answered` has none.
-/
import TruellmEngine.Bridge.PreprocessorChain

namespace TruellmEngine.Bridge

open Lib

/-- What a generator returns; the payload may be null. -/
structure GeneratorResult where
  error : PluginError
  payload : Option String

/-- A registered generator; its functions may be null, and may change the context. -/
structure Generator where
  pluginId : String
  priority : Int
  claims : Option (Option Context → String → Bool × Option Context)
  generate : Option (Option Context → String → GeneratorResult × Option Context)

structure GeneratorOutcome where
  claimed : Bool := false
  ok : Bool := false
  pluginId : String := ""
  text : String := ""
  error : PluginError := .ok
  errorMessage : String := ""

structure GeneratorRegistry where
  entries : List Generator := []
  sorted : InOrder Generator.priority entries := by exact inOrder_nil Generator.priority

namespace GeneratorRegistry

def registerGenerator (r : GeneratorRegistry) (gen : Generator) : GeneratorRegistry where
  entries := addSorted Generator.priority gen r.entries
  sorted := addSorted_inOrder Generator.priority gen r.entries

def hasGenerators (r : GeneratorRegistry) : Bool := !r.entries.isEmpty

def claimsFrom (messagesJson : String) : List Generator → Option Context → Bool × Option Context
  | [], ctx => (false, ctx)
  | entry :: entries, ctx =>
    match entry.claims with
    | none => claimsFrom messagesJson entries ctx
    | some claims =>
      if (claims ctx messagesJson).1 then (true, (claims ctx messagesJson).2)
      else claimsFrom messagesJson entries (claims ctx messagesJson).2

def claims (r : GeneratorRegistry) (messagesJson : String) (ctx : Option Context) :
    Bool × Option Context :=
  claimsFrom messagesJson r.entries ctx

/-- The outcome of the generator that has claimed the request. -/
def outcomeOf (pluginId : String) (tr : GeneratorResult) : GeneratorOutcome :=
  match tr.error, tr.payload with
  | .ok, some payload => { claimed := true, ok := true, pluginId := pluginId, text := payload }
  | error, payload =>
    { claimed := true
      pluginId := pluginId
      error := error
      errorMessage := payload.getD "generator returned no payload" }

def dispatchFrom (messagesJson : String) : List Generator → Option Context →
    GeneratorOutcome × Option Context
  | [], ctx => ({}, ctx)
  | entry :: entries, ctx =>
    match entry.claims, entry.generate with
    | some claims, some generate =>
      if (claims ctx messagesJson).1 then
        let answer := generate (claims ctx messagesJson).2 messagesJson
        (outcomeOf entry.pluginId answer.1, answer.2)
      else dispatchFrom messagesJson entries (claims ctx messagesJson).2
    | _, _ => dispatchFrom messagesJson entries ctx

def dispatch (r : GeneratorRegistry) (messagesJson : String) (ctx : Option Context) :
    GeneratorOutcome × Option Context :=
  dispatchFrom messagesJson r.entries ctx

theorem outcomeOf_claimed (pluginId : String) (tr : GeneratorResult) :
    (outcomeOf pluginId tr).claimed = true := by
  unfold outcomeOf
  split
  · rfl
  · rfl

theorem dispatchFrom_unclaimed {messagesJson : String} {entries : List Generator}
    {ctx : Option Context} (h : (dispatchFrom messagesJson entries ctx).1.claimed = false) :
    (dispatchFrom messagesJson entries ctx).1 = {} := by
  induction entries generalizing ctx with
  | nil => rfl
  | cons entry entries ih =>
    unfold dispatchFrom at h ⊢
    split at h
    · split at h
      · rw [outcomeOf_claimed] at h
        cases h
      · rename_i hclaims
        rw [if_neg hclaims]
        exact ih h
    · exact ih h

/-- A request that no generator claims has no outcome. -/
theorem dispatch_unclaimed {r : GeneratorRegistry} {messagesJson : String}
    {ctx : Option Context} (h : (r.dispatch messagesJson ctx).1.claimed = false) :
    (r.dispatch messagesJson ctx).1 = {} :=
  dispatchFrom_unclaimed h

/-! ## Claims -/

/-- The generator claims the request when it is asked. -/
def claimedBy (messagesJson : String) (ctx : Option Context) (entry : Generator) : Bool :=
  entry.claims.any fun claims => (claims ctx messagesJson).1

/-- The first generator, in priority order, that claims the request. -/
def claimant (r : GeneratorRegistry) (messagesJson : String) (ctx : Option Context) :
    Option Generator :=
  r.entries.find? (claimedBy messagesJson ctx)

/-- A claim leaves the context as it is. -/
def Pure (entry : Generator) : Prop :=
  ∀ claims ∈ entry.claims, ∀ ctx messagesJson, (claims ctx messagesJson).2 = ctx

/-- Both loops find a claim or neither does, and what is dispatched is the answer of the entry
    that makes the one true. -/
structure Agree (r : GeneratorRegistry) (messagesJson : String) (ctx : Option Context) : Prop where
  claimed : (r.claims messagesJson ctx).1 = (r.dispatch messagesJson ctx).1.claimed
  answered : ∀ entry ∈ r.claimant messagesJson ctx, ∃ generate ∈ entry.generate,
    r.dispatch messagesJson ctx =
      (outcomeOf entry.pluginId (generate ctx messagesJson).1, (generate ctx messagesJson).2)

section

variable {messagesJson : String} {ctx : Option Context} {entry : Generator}
  {entries : List Generator}

theorem claimsFrom_of_claimed (h : claimedBy messagesJson ctx entry = true) :
    (claimsFrom messagesJson (entry :: entries) ctx).1 = true := by
  obtain ⟨claims, hclaims, hclaim⟩ := (Option.any_eq_true _ _).mp h
  unfold claimsFrom
  rw [hclaims]
  dsimp only
  rw [if_pos hclaim]

/-- Both loops pass over a generator that does not claim the request. -/
theorem claimsFrom_of_passed (hpure : Pure entry) (h : ¬ claimedBy messagesJson ctx entry = true) :
    claimsFrom messagesJson (entry :: entries) ctx = claimsFrom messagesJson entries ctx := by
  rw [claimsFrom]
  cases hclaims : entry.claims with
  | none => rfl
  | some claims =>
    dsimp only
    rw [if_neg (by rwa [claimedBy, hclaims] at h), hpure claims hclaims]

theorem dispatchFrom_of_passed (hpure : Pure entry)
    (h : ¬ claimedBy messagesJson ctx entry = true) :
    dispatchFrom messagesJson (entry :: entries) ctx = dispatchFrom messagesJson entries ctx := by
  rw [dispatchFrom]
  cases hclaims : entry.claims with
  | none => rfl
  | some claims =>
    cases entry.generate with
    | none => rfl
    | some generate =>
      dsimp only
      rw [if_neg (by rwa [claimedBy, hclaims] at h), hpure claims hclaims]

/-- The generator that claims the request is run, and its answer dispatched. -/
theorem dispatchFrom_of_claimed (hpure : Pure entry) (h : claimedBy messagesJson ctx entry = true)
    {generate : Option Context → String → GeneratorResult × Option Context}
    (hgenerate : entry.generate = some generate) :
    dispatchFrom messagesJson (entry :: entries) ctx =
      (outcomeOf entry.pluginId (generate ctx messagesJson).1,
        (generate ctx messagesJson).2) := by
  obtain ⟨claims, hclaims, hclaim⟩ := (Option.any_eq_true _ _).mp h
  unfold dispatchFrom
  rw [hclaims, hgenerate]
  dsimp only
  rw [if_pos hclaim, hpure claims hclaims]

/-- The loop of `claims` finds the first generator that claims the request. -/
theorem claimsFrom_eq (hpure : ∀ entry ∈ entries, Pure entry) :
    (claimsFrom messagesJson entries ctx).1 =
      (entries.find? (claimedBy messagesJson ctx)).isSome := by
  induction entries with
  | nil => rfl
  | cons first entries ih =>
    obtain ⟨hfirst, hrest⟩ := List.forall_mem_cons.mp hpure
    by_cases hclaim : claimedBy messagesJson ctx first = true
    · rw [claimsFrom_of_claimed hclaim, List.find?_cons_of_pos hclaim]
      rfl
    · rw [claimsFrom_of_passed hfirst hclaim, List.find?_cons_of_neg hclaim,
        ih hrest]

theorem dispatchFrom_claimant (hpure : ∀ entry ∈ entries, Pure entry)
    (hfind : entries.find? (claimedBy messagesJson ctx) = some entry)
    {generate : Option Context → String → GeneratorResult × Option Context}
    (hgenerate : entry.generate = some generate) :
    dispatchFrom messagesJson entries ctx =
      (outcomeOf entry.pluginId (generate ctx messagesJson).1,
        (generate ctx messagesJson).2) := by
  induction entries with
  | nil => cases hfind
  | cons first entries ih =>
    obtain ⟨hfirst, hrest⟩ := List.forall_mem_cons.mp hpure
    by_cases hclaim : claimedBy messagesJson ctx first = true
    · rw [List.find?_cons_of_pos hclaim] at hfind
      cases hfind
      exact dispatchFrom_of_claimed hfirst hclaim hgenerate
    · rw [List.find?_cons_of_neg hclaim] at hfind
      rw [dispatchFrom_of_passed hfirst hclaim, ih hrest hfind]

/-- Where nobody claims the request nothing is dispatched. -/
theorem dispatchFrom_none (hpure : ∀ entry ∈ entries, Pure entry)
    (hfind : entries.find? (claimedBy messagesJson ctx) = none) :
    dispatchFrom messagesJson entries ctx = ({}, ctx) := by
  induction entries with
  | nil => rfl
  | cons first entries ih =>
    obtain ⟨hfirst, hrest⟩ := List.forall_mem_cons.mp hpure
    by_cases hclaim : claimedBy messagesJson ctx first = true
    · rw [List.find?_cons_of_pos hclaim] at hfind
      cases hfind
    · rw [List.find?_cons_of_neg hclaim] at hfind
      rw [dispatchFrom_of_passed hfirst hclaim, ih hrest hfind]

end

/-- With pure claims they agree exactly where the first generator that claims the request can
    also generate. -/
theorem claims_agree_iff (r : GeneratorRegistry) (messagesJson : String) (ctx : Option Context)
    (hpure : ∀ entry ∈ r.entries, Pure entry) :
    Agree r messagesJson ctx ↔
      ∀ entry ∈ r.claimant messagesJson ctx, entry.generate.isSome = true := by
  constructor
  · intro h entry hentry
    obtain ⟨generate, hgenerate, -⟩ := h.answered entry hentry
    exact Option.isSome_iff_exists.mpr ⟨generate, hgenerate⟩
  · intro h
    have hanswered : ∀ entry ∈ r.claimant messagesJson ctx, ∃ generate ∈ entry.generate,
        r.dispatch messagesJson ctx =
          (outcomeOf entry.pluginId (generate ctx messagesJson).1,
            (generate ctx messagesJson).2) := by
      intro entry hentry
      obtain ⟨generate, hgenerate⟩ := Option.isSome_iff_exists.mp (h entry hentry)
      exact ⟨generate, hgenerate, dispatchFrom_claimant hpure hentry hgenerate⟩
    refine ⟨?_, hanswered⟩
    have hclaims : (r.claims messagesJson ctx).1 = (r.claimant messagesJson ctx).isSome :=
      claimsFrom_eq hpure
    rw [hclaims]
    cases hclaimant : r.claimant messagesJson ctx with
    | none =>
      have hdispatch : r.dispatch messagesJson ctx = ({}, ctx) :=
        dispatchFrom_none hpure hclaimant
      rw [hdispatch]
      rfl
    | some entry =>
      obtain ⟨generate, -, hdispatch⟩ := hanswered entry hclaimant
      rw [hdispatch]
      exact (outcomeOf_claimed _ _).symm

/-- A generator that claims every request, with this function to answer. -/
def claimsAll (generate : Option (Option Context → String → GeneratorResult × Option Context)) :
    Generator where
  pluginId := "rlm"
  priority := 0
  claims := some fun ctx _ => (true, ctx)
  generate := generate

def onlyClaims : GeneratorRegistry :=
  ({} : GeneratorRegistry).registerGenerator (claimsAll none)

def answers : GeneratorRegistry :=
  ({} : GeneratorRegistry).registerGenerator
    (claimsAll (some fun ctx _ => (⟨.ok, some "answer"⟩, ctx)))

theorem onlyClaims_entries : onlyClaims.entries = [claimsAll none] :=
  List.mergeSort_singleton _

theorem answers_entries : answers.entries =
    [claimsAll (some fun ctx _ => (⟨.ok, some "answer"⟩, ctx))] :=
  List.mergeSort_singleton _

theorem answers_agree : Agree answers "[]" none := by
  refine (claims_agree_iff answers "[]" none ?_).mpr ?_
  · intro entry hentry claims hclaims ctx messagesJson
    rw [answers_entries] at hentry
    obtain rfl := List.mem_singleton.mp hentry
    cases hclaims
    rfl
  · intro entry hentry
    unfold claimant at hentry
    rw [answers_entries, List.find?_cons_of_pos (by decide)] at hentry
    cases hentry
    rfl

/-- The request is claimed, and nobody answers it. -/
theorem claimed_not_answered :
    (onlyClaims.claims "[]" none).1 = true ∧
      (onlyClaims.dispatch "[]" none).1.claimed = false ∧ ¬ Agree onlyClaims "[]" none := by
  have hclaims : (onlyClaims.claims "[]" none).1 = true := by
    unfold claims
    rw [onlyClaims_entries]
    rfl
  have hdispatch : (onlyClaims.dispatch "[]" none).1.claimed = false := by
    unfold dispatch
    rw [onlyClaims_entries]
    rfl
  refine ⟨hclaims, hdispatch, fun h => ?_⟩
  have hclaimed := h.claimed
  rw [hclaims, hdispatch] at hclaimed
  cases hclaimed

end GeneratorRegistry

end TruellmEngine.Bridge
