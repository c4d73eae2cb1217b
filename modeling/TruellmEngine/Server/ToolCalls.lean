/-
  Tool calls in the text of a model: where they are found, and the two forms they are passed
  on in.

  `canonicalToolCalls_isOk`: they are rewritten without an exception exactly when each is an
  object with a string for an id, if any, and a function object with a string for a name.
-/
import TruellmEngine.Lib.Json

namespace TruellmEngine.Server

open Lib
open Lib.Json (Field value valueAt getString getJson isString isObject)

/-! ## Finding -/

/-- The text before and behind the first occurrence of `pat`. -/
def cut {α : Type*} [DecidableEq α] (pat : List α) : List α → Option (List α × List α)
  | [] => if pat = [] then some ([], []) else none
  | c :: s =>
    if pat.isPrefixOf (c :: s) then some ([], (c :: s).drop pat.length)
    else (cut pat s).map fun halves => (c :: halves.1, halves.2)

theorem cut_eq {α : Type*} [DecidableEq α] {pat s front back : List α}
    (h : cut pat s = some (front, back)) : s = front ++ pat ++ back := by
  induction s generalizing front with
  | nil =>
    unfold cut at h
    split at h
    · rename_i hpat
      cases h
      rw [hpat]
      rfl
    · cases h
  | cons c s ih =>
    unfold cut at h
    split at h
    · rename_i hprefix
      cases h
      rw [List.nil_append]
      exact (List.prefix_iff_eq_append.mp (List.isPrefixOf_iff_prefix.mp hprefix)).symm
    · obtain ⟨⟨front', back'⟩, hcut, heq⟩ := Option.map_eq_some_iff.mp h
      cases heq
      rw [ih hcut]
      rfl

/-- It is the first one. -/
theorem cut_first {α : Type*} [DecidableEq α] {pat s front back x y : List α}
    (h : cut pat s = some (front, back)) (hs : s = x ++ (pat ++ y)) : front.length ≤ x.length := by
  induction s generalizing front x with
  | nil =>
    unfold cut at h
    split at h
    · cases h
      exact Nat.zero_le _
    · cases h
  | cons c s ih =>
    unfold cut at h
    split at h
    · cases h
      exact Nat.zero_le _
    · rename_i hprefix
      obtain ⟨⟨front', back'⟩, hcut, heq⟩ := Option.map_eq_some_iff.mp h
      cases heq
      cases x with
      | nil => exact absurd (List.isPrefixOf_iff_prefix.mpr ⟨y, hs.symm⟩) hprefix
      | cons d x => exact Nat.succ_le_succ (ih hcut (List.cons.inj hs).2)

theorem cut_eq_none {α : Type*} [DecidableEq α] {pat s : List α} (h : cut pat s = none) :
    ¬ pat <:+: s := by
  induction s with
  | nil =>
    unfold cut at h
    split at h
    · cases h
    · rename_i hpat
      exact fun hinfix => hpat (List.infix_nil.mp hinfix)
  | cons c s ih =>
    unfold cut at h
    split at h
    · cases h
    · rename_i hprefix
      rw [List.infix_cons_iff, not_or]
      exact ⟨fun h => hprefix (List.isPrefixOf_iff_prefix.mpr h), ih (Option.map_eq_none_iff.mp h)⟩

/-- An occurrence with none before it is the one that is found. -/
theorem cut_of_first {α : Type*} [DecidableEq α] {pat front back : List α}
    (h : ∀ x y, front ++ (pat ++ back) = x ++ (pat ++ y) → front.length ≤ x.length) :
    cut pat (front ++ (pat ++ back)) = some (front, back) := by
  cases hcut : cut pat (front ++ (pat ++ back)) with
  | none => exact absurd (List.infix_append' _ _ _) (cut_eq_none hcut)
  | some halves =>
    obtain ⟨front', back'⟩ := halves
    have heq := cut_eq hcut
    rw [List.append_assoc] at heq
    have hlength : front.length = front'.length :=
      Nat.le_antisymm (h front' back' heq) (cut_first hcut rfl)
    obtain ⟨rfl, hrest⟩ := List.append_inj heq hlength
    rw [List.append_cancel_left hrest]

/-- The text from an opening brace to the brace that closes it. -/
def matching (depth : Nat) : List UInt8 → Option (List UInt8)
  | [] => none
  | c :: s =>
    if c = 123 then (matching (depth + 1) s).map (c :: ·)
    else if c = 125 then
      if depth = 1 then some [c] else (matching (depth - 1) s).map (c :: ·)
    else (matching depth s).map (c :: ·)

/-! ## Parsing -/

/-- The arguments of a call; a text that is a document stands for it. -/
def argumentsOf (text : JsonText) (j : Json) : Json :=
  match ((j.field? "arguments").or (j.field? "parameters")).getD (.object []) with
  | .string s => (text.parse (bytes s)).getD (.string s)
  | args => args

/-- The call in the form of the interface, unless it is none or has no name. -/
def normaliseSingleCall (text : JsonText) (j : Json) : Except TypeError (Option Json) := do
  let named (name : String) (args : Json) : Option Json :=
    if name = "" then none
    else some (.object [("function", .object [("arguments", args), ("name", .string name)]),
      ("id", .string "call_0"), ("type", .string "function")])
  if j.contains "name" then
    return named (← value getString j "name" "") (argumentsOf text j)
  else if j.contains "tool" then
    return named (← value getString j "tool" "") (argumentsOf text j)
  else
    match j.field? "function" with
    | some (.object fn) =>
      return named (← value getString (.object fn) "name" "") (argumentsOf text (.object fn))
    | _ => return none

/-- The calls of a document, if the text is one. -/
def extractCalls (text : JsonText) (raw : List UInt8) : Except TypeError (List Json) :=
  match text.parse raw with
  | none => .ok []
  | some j =>
    match j.field? "tool_calls" with
    | some (.array calls) => .ok calls
    | _ => return (← normaliseSingleCall text j).toList

/-- The first attempt with calls. -/
def firstCalls (text : JsonText) : List (Option (List UInt8)) → Except TypeError (List Json)
  | [] => .ok []
  | none :: attempts => firstCalls text attempts
  | some block :: attempts => do
    let calls ← extractCalls text block
    if calls.isEmpty then firstCalls text attempts else return calls

/-- The blocks that begin with a brace. -/
def braceBlocks : List UInt8 → List (Option (List UInt8))
  | [] => []
  | c :: s => if c = 123 then matching 0 (c :: s) :: braceBlocks s else braceBlocks s

/-- The text between two marks. -/
def between (first last raw : List UInt8) : Option (List UInt8) := do
  let (_, rest) ← cut first raw
  let (block, _) ← cut last rest
  return block

/-- What is behind the tag, up to the end mark if there is one. -/
def behindTag (tag last raw : List UInt8) : Option (List UInt8) := do
  let (_, rest) ← cut tag raw
  return ((cut last rest).map Prod.fst).getD rest

/-- Where calls are looked for: the whole text, fenced and tagged parts, parts in braces. -/
def attempts (raw : List UInt8) : List (Option (List UInt8)) :=
  [some raw,
   between (bytes "```json") (bytes "```") raw,
   between (bytes "```\n") (bytes "```") raw,
   behindTag (bytes "<|python_tag|>") (bytes "<|eom_id|>") raw,
   between (bytes "<tool_call>") (bytes "</tool_call>") raw] ++ braceBlocks raw

def parseToolCalls (text : JsonText) (raw : List UInt8) : Except TypeError (List Json) :=
  firstCalls text (attempts raw)

theorem matching_isPrefix {depth : Nat} {s block : List UInt8} (h : matching depth s = some block) :
    block <+: s := by
  induction s generalizing depth block with
  | nil => cases h
  | cons c s ih =>
    have hmap : ∀ {d}, (matching d s).map (c :: ·) = some block → block <+: c :: s := by
      intro d hd
      obtain ⟨rest, hrest, rfl⟩ := Option.map_eq_some_iff.mp hd
      exact List.prefix_cons_inj c |>.mpr (ih hrest)
    unfold matching at h
    split at h
    · exact hmap h
    · split at h
      · split at h
        · cases h
          exact List.prefix_cons_inj c |>.mpr (List.nil_prefix)
        · exact hmap h
      · exact hmap h

section

variable {text : JsonText} {block : List UInt8} {blocks more : List (Option (List UInt8))}

theorem firstCalls_cons_nil (h : extractCalls text block = .ok []) :
    firstCalls text (some block :: more) = firstCalls text more := by
  rw [firstCalls, h]
  rfl

/-- Behind a block that has calls, or where they cannot be taken out, none is looked at. -/
theorem firstCalls_cons_stop (h : extractCalls text block ≠ .ok []) :
    firstCalls text (some block :: more) = extractCalls text block := by
  unfold firstCalls
  cases hblock : extractCalls text block with
  | error e => rfl
  | ok calls =>
    refine if_neg fun hempty => h ?_
    rw [hblock, List.isEmpty_iff.mp hempty]

theorem firstCalls_none
    (hall : ∀ block, some block ∈ blocks → extractCalls text block = .ok []) :
    firstCalls text (blocks ++ more) = firstCalls text more := by
  induction blocks with
  | nil => rfl
  | cons first blocks ih =>
    have hrest := ih fun block hblock => hall block (List.mem_cons_of_mem _ hblock)
    cases first with
    | none => exact hrest
    | some part =>
      rw [List.cons_append, firstCalls_cons_nil (hall part List.mem_cons_self)]
      exact hrest

/-- No block has calls, or there is a first one that the search ends at. -/
theorem blocks_cases (text : JsonText) (blocks : List (Option (List UInt8))) :
    (∀ block, some block ∈ blocks → extractCalls text block = .ok []) ∨
      ∃ before block rest, blocks = before ++ some block :: rest ∧
        (∀ b, some b ∈ before → extractCalls text b = .ok []) ∧
        extractCalls text block ≠ .ok [] := by
  induction blocks with
  | nil => exact .inl fun _ h => absurd h List.not_mem_nil
  | cons first blocks ih =>
    by_cases hfirst : ∀ part, first = some part → extractCalls text part = .ok []
    · have hbehind : ∀ {before}, (∀ b, some b ∈ before → extractCalls text b = .ok []) →
          ∀ b, some b ∈ first :: before → extractCalls text b = .ok [] := by
        intro before hbefore b hb
        rcases List.mem_cons.mp hb with heq | hb
        · exact hfirst b heq.symm
        · exact hbefore b hb
      rcases ih with hall | ⟨before, block, rest, rfl, hbefore, hblock⟩
      · exact .inl (hbehind hall)
      · exact .inr ⟨first :: before, block, rest, rfl, hbehind hbefore, hblock⟩
    · push Not at hfirst
      obtain ⟨part, rfl, hpart⟩ := hfirst
      exact .inr ⟨[], part, blocks, rfl, fun _ h => absurd h List.not_mem_nil, hpart⟩

/-- Calls that are found are those of the first block that has calls. -/
theorem firstCalls_first {calls : List Json} (h : firstCalls text blocks = .ok calls)
    (hcalls : calls ≠ []) :
    ∃ before block rest, blocks = before ++ some block :: rest ∧
      (∀ b, some b ∈ before → extractCalls text b = .ok []) ∧
      extractCalls text block = .ok calls := by
  rcases blocks_cases text blocks with hall | ⟨before, block, rest, rfl, hbefore, hblock⟩
  · have hnone : firstCalls text (blocks ++ []) = .ok [] := firstCalls_none hall
    rw [List.append_nil, h] at hnone
    exact absurd (Except.ok.inj hnone) hcalls
  · rw [firstCalls_none hbefore, firstCalls_cons_stop hblock] at h
    exact ⟨before, block, rest, rfl, hbefore, h⟩

theorem firstCalls_eq {calls : List Json} (h : firstCalls text blocks = .ok calls)
    (hcalls : calls ≠ []) :
    ∃ block, some block ∈ blocks ∧ extractCalls text block = .ok calls := by
  obtain ⟨before, block, rest, rfl, -, hblock⟩ := firstCalls_first h hcalls
  exact ⟨block, List.mem_append_right _ List.mem_cons_self, hblock⟩

/-- If no attempt has another call, one that has the call is enough. -/
theorem firstCalls_found {found : Json}
    (hall : ∀ block, some block ∈ blocks →
      extractCalls text block = .ok [] ∨ extractCalls text block = .ok [found])
    (hblock : some block ∈ blocks) (hfound : extractCalls text block = .ok [found]) :
    firstCalls text (blocks ++ more) = .ok [found] := by
  rcases blocks_cases text blocks with hnone | ⟨before, first, rest, rfl, hbefore, hfirst⟩
  · rw [hnone block hblock] at hfound
    cases hfound
  · rw [List.append_assoc, firstCalls_none hbefore, List.cons_append, firstCalls_cons_stop hfirst]
    exact (hall first (List.mem_append_right _ List.mem_cons_self)).resolve_left hfirst

end

/-! ## Calls as they are passed on -/

/-- The arguments as a text. -/
def toolArgsString (text : JsonText) (call : Json) : Except TypeError String := do
  let fn ← value getJson call "function" (.object [])
  match fn.field? "arguments" with
  | some (.string s) => return s
  | some (.object fields) => text.dumps (.object fields)
  | some (.array xs) => text.dumps (.array xs)
  | _ => return "\x7b\x7d"

/-- A call with its arguments as a text, and a number for an id if it has none. -/
def canonicalCall (text : JsonText) (idx : Nat) (c : Json) : Except TypeError Json := do
  let fn ← value getJson c "function" (.object [])
  let id ← value getString c "id" ("call_" ++ toString idx)
  let name ← value getString fn "name" ""
  let args ← toolArgsString text c
  return .object [("function", .object [("arguments", .string args), ("name", .string name)]),
    ("id", .string id), ("type", .string "function")]

def canonicalToolCalls (text : JsonText) (calls : List Json) : Except TypeError (List Json) :=
  calls.zipIdx.mapM fun c => canonicalCall text c.2 c.1

/-- The function object of a call. -/
def functionOf (c : Json) : Json := valueAt getJson c "function" (.object [])

/-- A call that can be passed on. -/
structure CallReadable (text : JsonText) (c : Json) : Prop where
  id : Field isString c "id"
  name : Field isString (functionOf c) "name"
  args : ∀ args ∈ (functionOf c).field? "arguments", (args.isObject || args.isArray) = true →
    text.encodes args = true

theorem isOk_function_bind {α : Type} {c : Json} {f : Json → Except TypeError α}
    (hc : ∃ fields, c = .object fields) :
    (value getJson c "function" (.object []) >>= f).isOk = true ↔
      (f (functionOf c)).isOk = true := by
  rw [Json.isOk_value_bind Json.getJson_isOk]
  obtain ⟨fields, rfl⟩ := hc
  exact and_iff_right fun _ _ => rfl

theorem toolArgsString_isOk (text : JsonText) {c : Json} (hc : ∃ fields, c = .object fields) :
    (toolArgsString text c).isOk = true ↔
      ∀ args ∈ (functionOf c).field? "arguments", (args.isObject || args.isArray) = true →
        text.encodes args = true := by
  unfold toolArgsString
  rw [isOk_function_bind hc]
  cases (functionOf c).field? "arguments" with
  | none => exact iff_of_true rfl (by simp)
  | some args =>
    cases args with
    | object fields => simp [dumps_isOk, Json.isObject]
    | array xs => simp [dumps_isOk, Json.isArray]
    | _ => exact iff_of_true rfl (by simp [Json.isObject, Json.isArray])

theorem canonicalCall_isOk (text : JsonText) (idx : Nat) (c : Json) :
    (canonicalCall text idx c).isOk = true ↔ CallReadable text c := by
  unfold canonicalCall
  constructor
  · intro h
    obtain ⟨fn, hfn, -⟩ := isOk_bind.mp h
    have hc : ∃ fields, c = .object fields := by
      cases c with
      | object fields => exact ⟨fields, rfl⟩
      | _ => cases hfn
    rw [isOk_function_bind hc, Json.isOk_value_bind Json.getString_isOk,
      Json.isOk_value_bind Json.getString_isOk] at h
    obtain ⟨hid, hname, hrest⟩ := h
    obtain ⟨args, hargs, -⟩ := isOk_bind.mp hrest
    exact ⟨hid, hname, (toolArgsString_isOk text hc).mp (isOk_iff.mpr ⟨args, hargs⟩)⟩
  · intro h
    have hc : ∃ fields, c = .object fields := by
      have hid := h.id
      cases c with
      | object fields => exact ⟨fields, rfl⟩
      | _ => exact hid.elim
    rw [isOk_function_bind hc, Json.isOk_value_bind Json.getString_isOk,
      Json.isOk_value_bind Json.getString_isOk]
    obtain ⟨args, hargs⟩ := isOk_iff.mp ((toolArgsString_isOk text hc).mpr h.args)
    exact ⟨h.id, h.name, isOk_bind.mpr ⟨args, hargs, rfl⟩⟩

/-- The calls are rewritten exactly if each of them can be passed on. -/
theorem canonicalToolCalls_isOk (text : JsonText) (calls : List Json) :
    (canonicalToolCalls text calls).isOk = true ↔ ∀ c ∈ calls, CallReadable text c := by
  unfold canonicalToolCalls
  rw [isOk_mapM]
  constructor
  · intro h c hc
    obtain ⟨idx, hidx, hget⟩ := List.mem_iff_getElem.mp hc
    have hmem : (c, idx) ∈ calls.zipIdx := List.mem_zipIdx_iff_getElem?.mpr
      ((List.getElem?_eq_getElem hidx).trans (congrArg some hget))
    exact (canonicalCall_isOk text idx c).mp (h (c, idx) hmem)
  · intro h c hc
    exact (canonicalCall_isOk text c.2 c.1).mpr (h c.1 (List.fst_mem_of_mem_zipIdx hc))

end TruellmEngine.Server
