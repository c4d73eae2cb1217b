/-
  Where the handling of tool calls throws. The accessors of a document throw on what is no
  object and on another type, and the documents here are what a model has written.

  `handlesCalls_iff`: everything that is done with a text completes exactly if no document
  that is looked at has a name that is no string, and every entry of its `tool_calls` is an
  object with a function object, and with strings for its id and its name, if any.
  `numbered_name` is a text that is no such.
-/
import TruellmEngine.Lib.CanonicalJson
import TruellmEngine.Server.CompletionsHandler

namespace TruellmEngine.Server

open Lib Bridge
open Lib.Json (Field value valueAt getString getJson isString isObject)

/-! ## A text that is only a call -/

/-- The white space that is trimmed. -/
def isWs (c : UInt8) : Bool := c = 32 || c = 9 || c = 13 || c = 10

def trimWs (t : List UInt8) : List UInt8 :=
  ((t.dropWhile isWs).reverse.dropWhile isWs).reverse

/-- What is between the two marks, if the text begins and ends with them. -/
def unwrap (first last t : List UInt8) : List UInt8 :=
  if first.length + last.length ≤ t.length && first.isPrefixOf t && last.isSuffixOf t then
    trimWs ((t.drop first.length).take (t.length - first.length - last.length))
  else t

/-- The text without the marks it may be wrapped in. -/
def unwrapped (raw : List UInt8) : List UInt8 :=
  let t := unwrap (bytes "```json") (bytes "```") (trimWs raw)
  let t := unwrap (bytes "```") (bytes "```") t
  let t := unwrap (bytes "<tool_call>") (bytes "</tool_call>") t
  let t := unwrap (bytes "<|python_tag|>") [] t
  unwrap [] (bytes "<|eom_id|>") t

/-- A key up to its closing quote, without the backslashes of its escapes. -/
def keyChars : List UInt8 → List UInt8
  | [] => []
  | [c] => if c = 34 then [] else [c]
  | c :: d :: t =>
    if c = 34 then []
    else if c = 92 then d :: keyChars t
    else c :: keyChars (d :: t)

/-- The first key of a text that begins as an object. -/
def firstJsonKey (t : List UInt8) : List UInt8 :=
  match t.dropWhile isWs with
  | 123 :: t =>
    match t.dropWhile isWs with
    | 34 :: t => keyChars t
    | _ => []
  | _ => []

def callKeys : List (List UInt8) :=
  ["tool_calls", "name", "tool", "function", "parameters", "arguments"].map bytes

/-- Whether there is nothing beside the call. -/
def textIsPureToolCall (text : JsonText) (raw : List UInt8) : Except TypeError Bool := do
  if trimWs raw = [] then return false
  let t := unwrapped raw
  -- a text that does not parse may be a call that was cut off
  let opens := t.head? = some 123 && firstJsonKey t ∈ callKeys
  match text.parse t with
  | none => return opens
  | some j =>
    match j.field? "tool_calls" with
    | some (.array _) => return true
    | _ =>
      if (← normaliseSingleCall text j).isSome then return true
      return opens

/-! ## Documents that can be read -/

/-- The name of a call is a string, where a name is looked for. -/
def NameTyped (j : Json) : Prop :=
  if j.contains "name" then Field isString j "name"
  else if j.contains "tool" then Field isString j "tool"
  else ∀ fields, j.field? "function" = some (.object fields) →
    Field isString (.object fields) "name"

/-- An entry of `tool_calls` as the loops read it. -/
structure CallShaped (c : Json) : Prop where
  id : Field isString c "id"
  name : ∃ fields, c.field? "function" = some (.object fields) ∧
    Field isString (.object fields) "name"

/-- A document with calls that can be read. -/
def CallsShaped (j : Json) : Prop :=
  match j.field? "tool_calls" with
  | some (.array calls) => ∀ c ∈ calls, CallShaped c
  | _ => NameTyped j

/-- A document whose `tool_calls` are not looked into. -/
def CallsTyped (j : Json) : Prop :=
  match j.field? "tool_calls" with
  | some (.array _) => True
  | _ => NameTyped j

section

variable (text : JsonText)

/-- The part is looked at: those before it have no calls. -/
def Tried (raw block : List UInt8) : Prop :=
  ∃ before rest, attempts raw = before ++ some block :: rest ∧
    ∀ b, some b ∈ before → extractCalls text b = .ok []

/-- No document in the text makes an accessor throw. -/
structure Readable (raw : List UInt8) : Prop where
  tried : ∀ block j, Tried text raw block → text.parse block = some j → CallsShaped j
  pure : trimWs raw ≠ [] → ∀ j, text.parse (unwrapped raw) = some j → CallsTyped j

/-- What is done with a text and its calls completes. -/
structure HandlesCalls (raw : List UInt8) : Prop where
  parses : (parseToolCalls text raw).isOk = true
  pure : (textIsPureToolCall text raw).isOk = true
  canonical : ∀ calls, parseToolCalls text raw = .ok calls →
    (canonicalToolCalls text calls).isOk = true
  arguments : ∀ calls, parseToolCalls text raw = .ok calls → ∀ c ∈ calls,
    (toolArgsString text c).isOk = true
  chat : ∀ calls, parseToolCalls text raw = .ok calls → ∀ c ∈ calls,
    ∀ (tools : ToolRegistry) (toolRound : Nat) (ms : List Json) (p : Progress),
      (runToolCall text tools toolRound (.array ms) c p).1.isOk = true
  completions : ∀ calls, parseToolCalls text raw = .ok calls → ∀ c ∈ calls,
    ∀ (tools : ToolRegistry) (toolRound : Nat) (results : String) (p : Progress),
      (runCompletionsCall text tools toolRound results c p).1.isOk = true

end

/-! ## One document -/

section

variable {text : JsonText}

theorem normaliseSingleCall_isOk (text : JsonText) (j : Json) :
    (normaliseSingleCall text j).isOk = true ↔ NameTyped j := by
  unfold normaliseSingleCall NameTyped
  by_cases hname : j.contains "name" = true
  · rw [if_pos hname]
    simp only [hname, ite_true]
    rw [Json.isOk_value_bind Json.getString_isOk]
    exact and_iff_left rfl
  rw [if_neg hname]
  simp only [hname]
  by_cases htool : j.contains "tool" = true
  · rw [if_pos htool]
    simp only [htool, ite_true]
    show (value getString j "tool" "" >>= _).isOk = true ↔ _
    rw [Json.isOk_value_bind Json.getString_isOk]
    exact and_iff_left rfl
  rw [if_neg htool]
  simp only [htool]
  cases hfn : j.field? "function" with
  | none => exact iff_of_true rfl fun _ h => by cases h
  | some fn =>
    cases fn with
    | object fields =>
      show (value getString (.object fields) "name" "" >>= _).isOk = true ↔ _
      rw [Json.isOk_value_bind Json.getString_isOk]
      constructor
      · rintro ⟨hfield, -⟩ fields' hfields
        cases hfields
        exact hfield
      · intro h
        exact ⟨h fields rfl, rfl⟩
    | _ => exact iff_of_true rfl fun _ h => by cases h

theorem extractCalls_isOk (text : JsonText) (block : List UInt8) :
    (extractCalls text block).isOk = true ↔ ∀ j, text.parse block = some j → CallsTyped j := by
  unfold extractCalls CallsTyped
  cases hparse : text.parse block with
  | none => exact iff_of_true rfl fun _ h => by cases h
  | some j =>
    have hone : (∀ j', some j = some j' → CallsTyped j') ↔ CallsTyped j :=
      ⟨fun h => h j rfl, fun h j' hj' => Option.some.inj hj' ▸ h⟩
    have hsingle : (do return (← normaliseSingleCall text j).toList :
        Except TypeError (List Json)).isOk = true ↔ NameTyped j := by
      rw [← normaliseSingleCall_isOk text j]
      cases normaliseSingleCall text j with
      | ok call => exact iff_of_true rfl rfl
      | error e => exact Iff.rfl
    refine Iff.trans ?_ hone.symm
    unfold CallsTyped
    dsimp only
    cases j.field? "tool_calls" with
    | none => exact hsingle
    | some v =>
      cases v with
      | array calls => exact iff_of_true rfl trivial
      | _ => exact hsingle

theorem textIsPureToolCall_isOk (text : JsonText) (raw : List UInt8) :
    (textIsPureToolCall text raw).isOk = true ↔
      (trimWs raw ≠ [] → ∀ j, text.parse (unwrapped raw) = some j → CallsTyped j) := by
  unfold textIsPureToolCall
  by_cases hempty : trimWs raw = []
  · rw [if_pos hempty]
    exact iff_of_true rfl fun h => absurd hempty h
  · rw [if_neg hempty, ← extractCalls_isOk text (unwrapped raw)]
    unfold extractCalls
    refine Iff.trans ?_ (forall_prop_of_true hempty).symm
    dsimp only
    cases text.parse (unwrapped raw) with
    | none => exact iff_of_true rfl rfl
    | some j =>
      have hsingle : (do
            if (← normaliseSingleCall text j).isSome then return true
            return (unwrapped raw).head? = some 123 && firstJsonKey (unwrapped raw) ∈ callKeys :
          Except TypeError Bool).isOk = true ↔
          (do return (← normaliseSingleCall text j).toList :
            Except TypeError (List Json)).isOk = true := by
        cases normaliseSingleCall text j with
        | ok call =>
          cases call with
          | none => exact iff_of_true rfl rfl
          | some call => exact iff_of_true rfl rfl
        | error e => exact Iff.rfl
      dsimp only
      cases j.field? "tool_calls" with
      | none => exact hsingle
      | some v =>
        cases v with
        | array calls => exact iff_of_true rfl rfl
        | _ => exact hsingle

/-! ## The search -/

theorem firstCalls_isOk (text : JsonText) (blocks : List (Option (List UInt8))) :
    (firstCalls text blocks).isOk = true ↔ ∀ before block rest,
      blocks = before ++ some block :: rest →
      (∀ b, some b ∈ before → extractCalls text b = .ok []) →
      (extractCalls text block).isOk = true := by
  constructor
  · rintro h before block rest rfl hbefore
    by_cases hblock : extractCalls text block = .ok []
    · rw [hblock]
      rfl
    · rwa [firstCalls_none hbefore, firstCalls_cons_stop hblock] at h
  · intro h
    rcases blocks_cases text blocks with hall | ⟨before, block, rest, rfl, hbefore, hblock⟩
    · rw [← List.append_nil blocks, firstCalls_none hall]
      rfl
    · rw [firstCalls_none hbefore, firstCalls_cons_stop hblock]
      exact h before block rest rfl hbefore

theorem parseToolCalls_isOk (text : JsonText) (raw : List UInt8) :
    (parseToolCalls text raw).isOk = true ↔
      ∀ block j, Tried text raw block → text.parse block = some j → CallsTyped j := by
  refine (firstCalls_isOk text (attempts raw)).trans ?_
  constructor
  · intro h block j htried hparse
    obtain ⟨before, rest, heq, hbefore⟩ := htried
    exact (extractCalls_isOk text block).mp (h before block rest heq hbefore) j hparse
  · intro h before block rest heq hbefore
    refine (extractCalls_isOk text block).mpr ?_
    exact fun j hparse => h block j ⟨before, rest, heq, hbefore⟩ hparse

theorem firstCalls_of_tried {before : List (Option (List UInt8))} {block : List UInt8}
    {rest : List (Option (List UInt8))} {calls : List Json} (hcalls : calls ≠ [])
    (hbefore : ∀ b, some b ∈ before → extractCalls text b = .ok [])
    (hblock : extractCalls text block = .ok calls) :
    firstCalls text (before ++ some block :: rest) = .ok calls := by
  have hstop : extractCalls text block ≠ .ok [] := by
    rw [hblock]
    exact fun heq => hcalls (Except.ok.inj heq)
  rw [firstCalls_none hbefore, firstCalls_cons_stop hstop, hblock]

/-! ## One call -/

theorem argumentsOf_encodes (hf : text.Faithful) {j : Json} (h : text.encodes j = true) :
    text.encodes (argumentsOf text j) = true := by
  have hargs : text.encodes
      (((j.field? "arguments").or (j.field? "parameters")).getD (.object [])) = true := by
    cases hfirst : j.field? "arguments" with
    | some args => exact encodes_field hf h hfirst
    | none =>
      cases hsecond : j.field? "parameters" with
      | some args => exact encodes_field hf h hsecond
      | none => exact hf.encodes_object.mpr fun f hmem => absurd hmem List.not_mem_nil
  unfold argumentsOf
  generalize ((j.field? "arguments").or (j.field? "parameters")).getD (.object []) = args at hargs
  cases args with
  | string s =>
    dsimp only
    cases hparse : text.parse (bytes s) with
    | none => exact hargs
    | some j' => exact hf.encodes_parsed hparse
  | _ => exact hargs

/-- A call as it is made from a name and arguments. -/
theorem shaped_of_named {args : Json} (name : String) (hargs : text.encodes args = true) :
    let c := Json.object [("function", .object [("arguments", args), ("name", .string name)]),
      ("id", .string "call_0"), ("type", .string "function")]
    CallShaped c ∧ ∀ args ∈ (functionOf c).field? "arguments", text.encodes args = true := by
  refine ⟨⟨?_, _, rfl, ?_⟩, ?_⟩
  · intro v hv
    cases hv
    rfl
  · intro v hv
    cases hv
    rfl
  · intro args' h
    cases h
    exact hargs

theorem normaliseSingleCall_shaped (hf : text.Faithful) {j c : Json} (h : text.encodes j = true)
    (hcall : normaliseSingleCall text j = .ok (some c)) :
    CallShaped c ∧ ∀ args ∈ (functionOf c).field? "arguments", text.encodes args = true := by
  have hnamed : ∀ (x : Except TypeError String) (args : Json), text.encodes args = true →
      (x >>= fun name => pure (if name = "" then none else some (Json.object
        [("function", .object [("arguments", args), ("name", .string name)]),
          ("id", .string "call_0"), ("type", .string "function")]))) = .ok (some c) →
      CallShaped c ∧ ∀ args ∈ (functionOf c).field? "arguments", text.encodes args = true := by
    intro x args hargs hx
    obtain ⟨name, -, hx⟩ := bind_eq_ok.mp hx
    split at hx
    · cases hx
    · cases hx
      exact shaped_of_named name hargs
  unfold normaliseSingleCall at hcall
  dsimp only at hcall
  split at hcall
  · exact hnamed _ _ (argumentsOf_encodes hf h) hcall
  split at hcall
  · exact hnamed _ _ (argumentsOf_encodes hf h) hcall
  split at hcall
  · rename_i fields hfn
    exact hnamed _ _ (argumentsOf_encodes hf (encodes_field hf h hfn)) hcall
  · cases hcall

theorem object_of_field {type : Json → Bool} {j : Json} {key : String} (h : Field type j key) :
    ∃ fields, j = .object fields := by
  cases j with
  | object fields => exact ⟨fields, rfl⟩
  | _ => exact h.elim

theorem valueAt_getJson (fields : List (String × Json)) (key : String) (dflt : Json) :
    valueAt getJson (.object fields) key dflt = (fields.lookup key).getD dflt := by
  unfold valueAt value
  dsimp only
  cases fields.lookup key with
  | none => rfl
  | some v => rfl

theorem functionOf_eq {c v : Json} (h : c.field? "function" = some v) : functionOf c = v := by
  cases c with
  | object fields =>
    unfold functionOf
    rw [valueAt_getJson]
    exact congrArg (Option.getD · (Json.object [])) h
  | _ => cases h

/-- What the loops read of a call. -/
theorem callShaped_iff (c : Json) (dflt : String) :
    ((value getJson c "function" .null >>= fun fn => value getString fn "name" "").isOk = true ∧
      (value getString c "id" dflt).isOk = true) ↔ CallShaped c := by
  rw [Json.valueString_isOk, Json.isOk_value_bind Json.getJson_isOk, Json.valueString_isOk]
  constructor
  · rintro ⟨⟨-, hname⟩, hid⟩
    obtain ⟨fields, rfl⟩ := object_of_field hid
    obtain ⟨fn, hfn⟩ := object_of_field hname
    rw [hfn] at hname
    refine ⟨hid, fn, ?_, hname⟩
    rw [valueAt_getJson] at hfn
    show fields.lookup "function" = _
    cases hlookup : fields.lookup "function" with
    | none =>
      rw [hlookup] at hfn
      cases hfn
    | some v =>
      rw [hlookup] at hfn
      exact congrArg some hfn
  · rintro ⟨hid, fn, hfn, hname⟩
    obtain ⟨fields, rfl⟩ := object_of_field hid
    have hvalue : valueAt getJson (.object fields) "function" .null = .object fn := by
      rw [valueAt_getJson]
      exact congrArg (Option.getD · Json.null) hfn
    rw [hvalue]
    exact ⟨⟨fun _ _ => rfl, hname⟩, hid⟩

theorem typed_bind_isOk {α β : Type} {x : Except TypeError α} {f : α → ChatM β} {p : Progress} :
    ((typed x >>= f) p).1.isOk = true ↔ ∃ a, x = .ok a ∧ (f a p).1.isOk = true := by
  cases x with
  | ok a =>
    constructor
    · intro h
      exact ⟨a, rfl, h⟩
    · rintro ⟨a', ha, h⟩
      cases ha
      exact h
  | error e =>
    constructor
    · intro h
      cases h
    · rintro ⟨a, ha, -⟩
      cases ha

/-- A computation that starts as the loops do with a call. -/
theorem readCall_isOk {β : Type} {c : Json} {dflt : String} {f : String → String → String → ChatM β}
    {p : Progress} (hf : ∀ qname args id, (f qname args id p).1.isOk = true) :
    ((typed (value getJson c "function" .null) >>= fun fn =>
      typed (value getString fn "name" "") >>= fun qname =>
      typed (toolArgsString text c) >>= fun args =>
      typed (value getString c "id" dflt) >>= fun id => f qname args id) p).1.isOk = true ↔
      CallShaped c ∧ (toolArgsString text c).isOk = true := by
  simp only [typed_bind_isOk]
  rw [← callShaped_iff c dflt]
  constructor
  · rintro ⟨fn, hfn, name, hname, args, hargs, id, hid, -⟩
    exact ⟨⟨isOk_iff.mpr ⟨name, bind_eq_ok.mpr ⟨fn, hfn, hname⟩⟩, isOk_iff.mpr ⟨id, hid⟩⟩,
      isOk_iff.mpr ⟨args, hargs⟩⟩
  · rintro ⟨⟨hname, hid⟩, hargs⟩
    obtain ⟨name, hname⟩ := isOk_iff.mp hname
    obtain ⟨fn, hfn, hname⟩ := bind_eq_ok.mp hname
    obtain ⟨id, hid⟩ := isOk_iff.mp hid
    obtain ⟨args, hargs⟩ := isOk_iff.mp hargs
    exact ⟨fn, hfn, name, hname, args, hargs, id, hid, hf name args id⟩

theorem runToolCall_isOk (tools : ToolRegistry) (toolRound : Nat) (ms : List Json) (c : Json)
    (p : Progress) : (runToolCall text tools toolRound (.array ms) c p).1.isOk = true ↔
      CallShaped c ∧ (toolArgsString text c).isOk = true :=
  readCall_isOk fun _ _ _ => rfl

theorem runCompletionsCall_isOk (tools : ToolRegistry) (toolRound : Nat) (results : String)
    (c : Json) (p : Progress) :
    (runCompletionsCall text tools toolRound results c p).1.isOk = true ↔
      CallShaped c ∧ (toolArgsString text c).isOk = true :=
  readCall_isOk fun _ _ _ => rfl

/-- A call in the right shape, with arguments that can be written, is handled. -/
theorem toolArgsString_of_shaped {c : Json} (h : CallShaped c)
    (hargs : ∀ args ∈ (functionOf c).field? "arguments", text.encodes args = true) :
    (toolArgsString text c).isOk = true :=
  (toolArgsString_isOk text (object_of_field h.id)).mpr fun args hmem _ => hargs args hmem

theorem callReadable_of_shaped {c : Json} (h : CallShaped c)
    (hargs : ∀ args ∈ (functionOf c).field? "arguments", text.encodes args = true) :
    CallReadable text c where
  id := h.id
  name := by
    obtain ⟨fields, hfn, hname⟩ := h.name
    rw [functionOf_eq hfn]
    exact hname
  args args hmem _ := hargs args hmem

/-! ## The calls of a text -/

theorem callsTyped_of_shaped {j : Json} (h : CallsShaped j) : CallsTyped j := by
  unfold CallsShaped at h
  unfold CallsTyped
  cases hfield : j.field? "tool_calls" with
  | none =>
    rw [hfield] at h
    exact h
  | some v =>
    rw [hfield] at h
    cases v with
    | array calls => trivial
    | _ => exact h

/-- What is found in a document that can be read. -/
theorem extractCalls_shaped (hf : text.Faithful) {block : List UInt8} {calls : List Json}
    (hshaped : ∀ j, text.parse block = some j → CallsShaped j)
    (h : extractCalls text block = .ok calls) : ∀ c ∈ calls, CallShaped c ∧
      ∀ args ∈ (functionOf c).field? "arguments", text.encodes args = true := by
  unfold extractCalls at h
  cases hparse : text.parse block with
  | none =>
    rw [hparse] at h
    cases h
    exact fun _ hc => absurd hc List.not_mem_nil
  | some j =>
    have hj := hshaped j hparse
    have hencodes := hf.encodes_parsed hparse
    have hsingle : (do return (← normaliseSingleCall text j).toList :
        Except TypeError (List Json)) = .ok calls → ∀ c ∈ calls, CallShaped c ∧
          ∀ args ∈ (functionOf c).field? "arguments", text.encodes args = true := by
      intro h c hc
      obtain ⟨call, hcall, h⟩ := bind_eq_ok.mp h
      cases h
      rw [Option.mem_toList] at hc
      rw [hc] at hcall
      exact normaliseSingleCall_shaped hf hencodes hcall
    rw [hparse] at h
    unfold CallsShaped at hj
    dsimp only at h
    cases hfield : j.field? "tool_calls" with
    | none =>
      rw [hfield] at h
      exact hsingle h
    | some v =>
      rw [hfield] at h hj
      cases v with
      | array found =>
        cases h
        intro c hc
        refine ⟨hj c hc, ?_⟩
        intro args hargs
        have hc' : text.encodes c = true :=
          hf.encodes_array.mp (encodes_field hf hencodes hfield) c hc
        obtain ⟨fn, hfn, -⟩ := (hj c hc).name
        rw [functionOf_eq hfn] at hargs
        exact encodes_field hf (encodes_field hf hc' hfn) hargs
      | _ => exact hsingle h

/-- Calls that are found in a text that can be read. -/
theorem parseToolCalls_shaped (hf : text.Faithful) {raw : List UInt8} {calls : List Json}
    (hread : Readable text raw) (h : parseToolCalls text raw = .ok calls) :
    ∀ c ∈ calls, CallShaped c ∧
      ∀ args ∈ (functionOf c).field? "arguments", text.encodes args = true := by
  by_cases hempty : calls = []
  · rw [hempty]
    exact fun _ hc => absurd hc List.not_mem_nil
  · obtain ⟨before, block, rest, heq, hbefore, hblock⟩ := firstCalls_first h hempty
    exact extractCalls_shaped hf (fun j => hread.tried block j ⟨before, rest, heq, hbefore⟩) hblock

theorem HandlesCalls.readable {raw : List UInt8} (h : HandlesCalls text raw) :
    Readable text raw := by
  refine ⟨?_, (textIsPureToolCall_isOk text raw).mp h.pure⟩
  intro block j htried hparse
  have htyped := (parseToolCalls_isOk text raw).mp h.parses block j htried hparse
  obtain ⟨before, rest, heq, hbefore⟩ := htried
  unfold CallsTyped at htyped
  unfold CallsShaped
  cases hfield : j.field? "tool_calls" with
  | none =>
    rw [hfield] at htyped
    exact htyped
  | some v =>
    rw [hfield] at htyped
    cases v with
    | array found =>
      intro c hc
      have hblock : extractCalls text block = .ok found := by
        unfold extractCalls
        rw [hparse]
        dsimp only
        rw [hfield]
      have hcalls : parseToolCalls text raw = .ok found := by
        unfold parseToolCalls
        rw [heq]
        exact firstCalls_of_tried (List.ne_nil_of_mem hc) hbefore hblock
      have hrun := h.chat found hcalls c hc {} 0 [] { ctx := none }
      exact ((runToolCall_isOk _ _ _ _ _).mp hrun).1
    | _ => exact htyped

end

/-- Everything that is done with a text of a model completes exactly if its documents can be
    read. -/
theorem handlesCalls_iff {text : JsonText} (hf : text.Faithful) (raw : List UInt8) :
    HandlesCalls text raw ↔ Readable text raw := by
  refine ⟨HandlesCalls.readable, fun hread => ?_⟩
  have hshaped := fun calls (hcalls : parseToolCalls text raw = .ok calls) =>
    parseToolCalls_shaped hf hread hcalls
  refine ⟨?_, ?_, ?_, ?_, ?_, ?_⟩
  · refine (parseToolCalls_isOk text raw).mpr fun block j htried hparse => ?_
    exact callsTyped_of_shaped (hread.tried block j htried hparse)
  · exact (textIsPureToolCall_isOk text raw).mpr hread.pure
  · intro calls hcalls
    refine (canonicalToolCalls_isOk text calls).mpr fun c hc => ?_
    exact callReadable_of_shaped (hshaped calls hcalls c hc).1 (hshaped calls hcalls c hc).2
  · intro calls hcalls c hc
    exact toolArgsString_of_shaped (hshaped calls hcalls c hc).1 (hshaped calls hcalls c hc).2
  · intro calls hcalls c hc tools toolRound ms p
    obtain ⟨hc, hargs⟩ := hshaped calls hcalls c hc
    exact (runToolCall_isOk _ _ _ _ _).mpr ⟨hc, toolArgsString_of_shaped hc hargs⟩
  · intro calls hcalls c hc tools toolRound results p
    obtain ⟨hc, hargs⟩ := hshaped calls hcalls c hc
    exact (runCompletionsCall_isOk _ _ _ _ _).mpr ⟨hc, toolArgsString_of_shaped hc hargs⟩

/-- A document whose text is read as it was printed. -/
theorem canonical_printed (j : Json) {s : String}
    (hs : s = String.ofList (CanonicalJson.print j)) (hplain : CanonicalJson.plain j = true)
    (hordered : CanonicalJson.ordered j = true) :
    CanonicalJson.canonical.parse (bytes s) = some j.canon := by
  rw [hs, CanonicalJson.canonical_parse]
  exact CanonicalJson.parse_print hplain hordered

theorem tried_whole (text : JsonText) (raw : List UInt8) : Tried text raw raw :=
  ⟨[], _, rfl, fun _ hb => absurd hb List.not_mem_nil⟩

theorem parseToolCalls_whole {text : JsonText} {raw : List UInt8} {calls : List Json}
    (hcalls : calls ≠ []) (h : extractCalls text raw = .ok calls) :
    parseToolCalls text raw = .ok calls := by
  unfold parseToolCalls attempts
  show firstCalls text ([] ++ some raw :: _) = _
  exact firstCalls_of_tried hcalls (fun _ hb => absurd hb List.not_mem_nil) h

/-- A text with calls as a whole is looked at as a whole. -/
theorem eq_of_tried {text : JsonText} {raw block : List UInt8} {calls : List Json}
    (hcalls : calls ≠ []) (h : extractCalls text raw = .ok calls) (htried : Tried text raw block) :
    block = raw := by
  obtain ⟨before, rest, heq, hbefore⟩ := htried
  cases before with
  | nil => exact (Option.some.inj (List.cons.inj heq).1).symm
  | cons first before =>
    have hfirst := hbefore raw (by rw [← (List.cons.inj heq).1]; exact List.mem_cons_self)
    exact absurd (Except.ok.inj (h.symm.trans hfirst)) hcalls

theorem clock_parsed : CanonicalJson.canonical.parse (bytes "\x7b\"name\":\"clock\"\x7d") =
    some (.object [("name", .string "clock")]) :=
  canonical_printed (.object [("name", .string "clock")]) (by decide) (by decide) (by decide)

theorem clock_extracted : ∃ calls, calls ≠ [] ∧ extractCalls CanonicalJson.canonical
    (bytes "\x7b\"name\":\"clock\"\x7d") = .ok calls := by
  unfold extractCalls
  rw [clock_parsed]
  exact ⟨_, List.cons_ne_nil _ _, rfl⟩

theorem clock_handled :
    HandlesCalls CanonicalJson.canonical (bytes "\x7b\"name\":\"clock\"\x7d") := by
  obtain ⟨calls, hcalls, hextract⟩ := clock_extracted
  have hnamed : Field isString (.object [("name", .string "clock")]) "name" := by
    intro v hv
    cases hv
    rfl
  refine (handlesCalls_iff CanonicalJson.canonical_faithful _).mpr ⟨?_, ?_⟩
  · intro block j htried hparse
    rw [eq_of_tried hcalls hextract htried, clock_parsed] at hparse
    cases hparse
    exact hnamed
  · intro _ j hparse
    rw [show unwrapped (bytes "\x7b\"name\":\"clock\"\x7d") =
      bytes "\x7b\"name\":\"clock\"\x7d" by decide, clock_parsed] at hparse
    cases hparse
    exact hnamed

/-- A number for a name. -/
theorem numbered_name :
    ¬ HandlesCalls CanonicalJson.canonical (bytes "\x7b\"name\":5\x7d") := by
  have hparsed : CanonicalJson.canonical.parse (bytes "\x7b\"name\":5\x7d") =
      some (.object [("name", .unsigned 5)]) :=
    canonical_printed (.object [("name", .unsigned 5)]) (by decide) (by decide) (by decide)
  intro h
  have hname : Field isString (.object [("name", .unsigned 5)]) "name" :=
    h.readable.tried _ _ (tried_whole _ _) hparsed
  exact absurd (hname (.unsigned 5) rfl) (by decide)

end TruellmEngine.Server
