/-
  What is found in the parts of a text that has one call in it. The text is the document of the
  call, as it is written, between two texts without braces; a part of it is some stretch that
  calls are looked for in.

  `parse_from_front`: a part that begins before the document is an object only if it is the
  document. `extractCalls_inside`: one that begins in a string of the document has no calls.
  `strings_within`: the strings of an object in the document are strings of the arguments.
-/
import TruellmEngine.Lib.JsonShape
import TruellmEngine.Server.ToolCalls

namespace TruellmEngine.Server

open Lib Lib.Place
open Lib.Json (value getString getJson)

/-- A call that can be written: a name and an object of arguments. -/
structure EmbeddedCall (text : JsonText) where
  name : String
  fields : List (String × Json)
  named : name ≠ ""
  written : text.Written (.object fields)
  encodes : text.encodes (.object [("arguments", .object fields), ("name", .string name)]) = true

namespace EmbeddedCall

variable {text : JsonText} (c : EmbeddedCall text)

def arguments : Json := .object c.fields

def document : Json := .object [("arguments", c.arguments), ("name", .string c.name)]

def dump : List UInt8 := bytes (text.dump c.document)

/-- The call as it is found. -/
def found : Json :=
  .object [("function", .object [("arguments", c.arguments.canon), ("name", .string c.name)]),
    ("id", .string "call_0"), ("type", .string "function")]

theorem written_document : text.Written c.document := by
  apply JsonText.Written.object
  · show List.Pairwise (· < ·) ["arguments", "name"]
    decide
  · intro f hf
    rw [List.mem_cons, List.mem_singleton] at hf
    rcases hf with rfl | rfl
    · exact c.written
    · exact .string _

/-- The document is found where it is read. -/
theorem extractCalls_document {block : List UInt8}
    (h : text.parse block = some c.document.canon) :
    extractCalls text block = .ok [c.found] := by
  have hnormal : normaliseSingleCall text c.document.canon = .ok (some c.found) := by
    show Except.ok (if c.name = "" then none else some _) = _
    rw [if_neg c.named]
    rfl
  unfold extractCalls
  rw [h]
  show ((do return (← normaliseSingleCall text c.document.canon).toList) : Except _ _) = _
  rw [hnormal]
  rfl

end EmbeddedCall

/-! ## Where no calls are found -/

section

variable {text : JsonText} {block : List UInt8}

theorem extractCalls_keyless {j : Json} (h : text.parse block = some j)
    (hkeys : ∀ key ∈ ["tool_calls", "name", "tool", "function"], j.field? key = none) :
    extractCalls text block = .ok [] := by
  have hnone : ∀ key ∈ ["tool_calls", "name", "tool", "function"], j.contains key = false := by
    intro key hkey
    rw [Json.contains, hkeys key hkey]
    rfl
  unfold extractCalls normaliseSingleCall
  rw [h]
  dsimp only
  rw [hkeys "tool_calls" (by decide), hnone "name" (by decide), hnone "tool" (by decide),
    hkeys "function" (by decide)]
  rfl

/-- Only objects have calls. -/
theorem extractCalls_no_object (h : ∀ fields, text.parse block ≠ some (.object fields)) :
    extractCalls text block = .ok [] := by
  cases hparse : text.parse block with
  | none =>
    unfold extractCalls
    rw [hparse]
  | some j =>
    refine extractCalls_keyless hparse fun key _ => ?_
    cases j with
    | object fields => exact absurd hparse (h fields)
    | _ => rfl

theorem object_or_no_calls (text : JsonText) (block : List UInt8) :
    (∃ fields, text.parse block = some (.object fields)) ∨ extractCalls text block = .ok [] := by
  by_cases h : ∃ fields, text.parse block = some (.object fields)
  · exact .inl h
  · exact .inr (extractCalls_no_object fun fields hparse => h ⟨fields, hparse⟩)

variable {unescape : List UInt8 → String}

/-- An object has a brace. -/
theorem extractCalls_free (hs : text.Shaped unescape) (h : 123 ∉ block) :
    extractCalls text block = .ok [] := by
  apply extractCalls_no_object
  intro fields hparse
  obtain ⟨lead, m, rest, rfl, -⟩ := hs.object hparse
  simp at h

/-- A part that begins before an object, with no brace between, is an object only if it has all
    of it and nothing else. -/
theorem parse_from_front (hs : text.Shaped unescape) {front back m : List UInt8}
    (hfront : 123 ∉ front) (hback : 125 ∉ back) (hm : Tidy m)
    (hblock : block <+: front ++ (123 :: (m ++ [125]) ++ back)) {fields : List (String × Json)}
    (h : text.parse block = some (.object fields)) :
    ∃ rest, block = front ++ (123 :: (m ++ [125]) ++ rest) ∧ Leading front ∧ Trailing rest := by
  obtain ⟨lead, m', rest, rfl, hlead, hrest, hm', -⟩ := hs.object h
  obtain ⟨behind, hbehind⟩ := hblock
  rw [List.append_assoc, List.append_assoc (123 :: _)] at hbehind
  obtain ⟨rfl, htail⟩ := front_unique hlead.no_brace hfront hbehind
  obtain ⟨rfl, -⟩ := braces_unique hm hm' hback (congrArg (123 :: ·) htail)
  exact ⟨rest, rfl, hlead, hrest⟩

/-- The characters that stand outside of strings. -/
def bareChars : List Char := structural.map fun b => Char.ofNat b.toNat

def Bare (s : String) : Prop := ∀ c ∈ s.toList, c ∈ bareChars

instance (s : String) : Decidable (Bare s) :=
  List.decidableBAll (fun c => c ∈ bareChars) s.toList

/-- None of the keys of a call is like that. -/
theorem callKeys_not_bare : ∀ key ∈ ["tool_calls", "name", "tool", "function"], ¬ Bare key := by
  decide

/-- Read from the wrong side of a quote, a document has no other strings. -/
theorem bare_of_inside (hs : text.Shaped unescape) {t : List UInt8}
    (hown : 92 ∉ outer outside t) (hreal : ∀ c ∈ outer inside t, c ∈ structural) {s : String}
    (h : s ∈ texts unescape t) : Bare s := by
  obtain ⟨body, hbody, rfl⟩ := List.mem_map.mp h
  have hback : 92 ∉ structural := by decide
  have hsides := (inner_eq_outer hown fun h => hback (hreal 92 h)).1
  have hchars : ∀ c ∈ body, c ∈ structural := by
    intro c hc
    have hinner := (mem_inner_of_mem_literals hbody hc).resolve_left List.not_mem_nil
    exact hreal c (hsides ▸ hinner)
  rw [hs.unescape_plain fun h => hback (hchars 92 h)]
  intro c hc
  rw [ofBytes, String.toList_ofList] at hc
  obtain ⟨b, hb, rfl⟩ := List.mem_map.mp hc
  exact List.mem_map_of_mem (hchars b hb)

/-- A part that begins in a string of an object has no calls; `opened` is what is read of it
    before it is surely in the string. -/
theorem extractCalls_inside (hs : text.Shaped unescape) {m x opened v back : List UInt8}
    (hm : Tidy m) (hback : 125 ∉ back) (hd : 123 :: (m ++ [125]) = x ++ (opened ++ v))
    (hopened : ∀ c ∈ opened, c = 123) (hx : outside.after (x ++ opened) = inside)
    (hblock : block <+: opened ++ (v ++ back)) : extractCalls text block = .ok [] := by
  rcases object_or_no_calls text block with ⟨fields, hparse⟩ | hnone
  · refine extractCalls_keyless hparse fun key hkey => ?_
    obtain ⟨lead, m', rest, hraw, hlead, -, hm', hread⟩ := hs.object hparse
    obtain ⟨behind, hbehind⟩ := hblock
    obtain ⟨w, hw⟩ : ∃ w, opened ++ v = lead ++ 123 :: m' ++ [125] ++ w := by
      apply ends_before hback (s := rest ++ behind)
      rw [List.append_assoc opened, ← hbehind, hraw]
      simp only [List.append_assoc, List.cons_append]
    -- the object begins with what was read before
    obtain ⟨t, ht, hv⟩ : ∃ t, lead ++ (123 :: (m' ++ [125])) = opened ++ t ∧ v = t ++ w := by
      rw [List.append_assoc lead] at hw
      rcases List.append_eq_append_iff.mp hw with ⟨t, ht, hv⟩ | ⟨t, ht, -⟩
      · exact ⟨t, ht, hv⟩
      · exact absurd (hopened 125 (by rw [ht]; simp)) (by decide)
    have hquoted : 34 ∉ opened := fun h => absurd (hopened 34 h) (by decide)
    have hown : 92 ∉ outer outside t := by
      intro h
      have hmem : 92 ∈ outer outside (opened ++ t) := by
        rw [outer_append, (outer_unquoted hquoted).2.1]
        exact List.mem_append_right _ h
      rw [← ht, outer_append, (outer_unquoted hlead.unquoted).1,
        (outer_unquoted hlead.unquoted).2.1] at hmem
      rcases List.mem_append.mp hmem with hmem | hmem
      · exact absurd (hlead.mem hmem) (by decide)
      · exact absurd ((tidy_braces hm').structural 92 hmem) (by decide)
    have hreal : ∀ c ∈ outer inside t, c ∈ structural := by
      intro c hc
      apply (tidy_braces hm).structural
      rw [hd, hv, ← List.append_assoc, outer_append outside (x ++ opened), hx, outer_append inside]
      exact List.mem_append_right _ (List.mem_append_left _ hc)
    by_contra hfield
    obtain ⟨v', hv'⟩ := Option.ne_none_iff_exists'.mp hfield
    have hkeyed := (Json.strings_field hv').subset List.mem_cons_self
    have htext := (strings_read hread).subset hkeyed
    rw [← texts_unquoted_append hlead.unquoted, ht, texts_unquoted_append hquoted] at htext
    exact callKeys_not_bare key hkey (bare_of_inside hs hown hreal htext)
  · exact hnone

end

/-! ## Objects in the document of a call -/

namespace EmbeddedCall

variable {text : JsonText} {unescape : List UInt8 → String} (c : EmbeddedCall text)

theorem printed (hs : text.Shaped unescape) : Printed unescape (.value c.document.canon) c.dump :=
  hs.prints c.written_document c.encodes

theorem dump_braces (hs : text.Shaped unescape) :
    ∃ m, c.dump = 123 :: (m ++ [125]) ∧ Tidy m := by
  obtain ⟨_, m, hdump, -, hm⟩ := (c.printed hs).object_eq
  exact ⟨m, hdump, hm.tidy⟩

/-- The document is found in what a reader passes over. -/
theorem extractCalls_dump (hs : text.Shaped unescape) {lead rest : List UInt8}
    (hlead : Leading lead) (hrest : Trailing rest) :
    extractCalls text (lead ++ (c.dump ++ rest)) = .ok [c.found] :=
  c.extractCalls_document (hs.readsBack c.written_document c.encodes hlead hrest)

/-- The document: a brace and a key, the arguments, and what has no more braces to open. -/
theorem dump_eq (hs : text.Shaped unescape) :
    ∃ front m back, c.dump = 123 :: (front ++ (123 :: (m ++ [125]) ++ back) ++ [125]) ∧
      Flat front ∧ Tidy m ∧ Flat back ∧
      texts unescape (123 :: (m ++ [125])) = c.arguments.strings := by
  obtain ⟨_, inside, hdump, rfl, hfields⟩ := (c.printed hs).object_eq
  obtain ⟨gap, body, colon, args, back, rfl, hgap, hbody, hcolon, hargs, hback⟩ := hfields.field_eq
  obtain ⟨_, m, rfl, -, hm⟩ := Shape.object_eq hargs
  refine ⟨gap ++ (literal body ++ colon), m, back, ?_, ?_, hm.tidy, hback.flat_string, ?_⟩
  · rw [hdump]
    simp only [List.append_assoc]
  · exact (flat_loose hgap).append ((flat_literal hbody).append (flat_loose hcolon))
  · rw [← strings_printed hargs]
    exact Json.strings_canon c.arguments

/-- An object that begins outside of strings, and not where the document does, has strings of the
    arguments only. -/
theorem strings_within (hs : text.Shaped unescape) {x v block behind : List UInt8} (hne : x ≠ [])
    (hdump : c.dump = x ++ 123 :: v) (hx : outside.after x = outside) (hbehind : 125 ∉ behind)
    (hblock : block <+: 123 :: (v ++ behind)) {fields : List (String × Json)}
    (h : text.parse block = some (.object fields)) :
    (Json.object fields).strings.Subperm c.arguments.strings := by
  obtain ⟨front, m, back, heq, hfront, hm, hback, hstrings⟩ := c.dump_eq hs
  obtain ⟨lead, m', rest, rfl, hlead, -, hm', hread⟩ := hs.object h
  obtain ⟨more, hmore⟩ := hblock
  rw [List.append_assoc, List.append_assoc (123 :: _)] at hmore
  obtain ⟨rfl, htail⟩ := front_unique (y := []) hlead.no_brace List.not_mem_nil hmore
  obtain ⟨z, hz⟩ := ends_before (c := 125) (x := m') hbehind htail
  obtain ⟨x, rfl⟩ : ∃ x', x = 123 :: x' := by
    cases x with
    | nil => exact absurd rfl hne
    | cons d x =>
      rw [heq] at hdump
      exact ⟨x, by rw [(List.cons.inj hdump).1]⟩
  have hcloses : 123 ∉ outer outside (back ++ [125]) := by
    rw [outer_append, hback.tidy.closed, List.mem_append]
    exact not_or.mpr ⟨hback.free, by decide⟩
  have hsame : x ++ (123 :: (m' ++ [125]) ++ z) =
      front ++ (123 :: (m ++ [125]) ++ (back ++ [125])) := by
    rw [heq, hz] at hdump
    have htails := (List.cons.inj hdump).2
    simp only [List.append_assoc, List.cons_append] at htails ⊢
    exact htails.symm
  obtain ⟨x', z', hargs, hx'⟩ := hm.within hm' hfront hcloses hsame hx
  rw [← hstrings, hargs, texts_append hx', texts_append (tidy_braces hm').closed]
  exact (strings_read hread).trans ((List.sublist_append_left _ _).trans
    (List.sublist_append_right _ _)).subperm

end EmbeddedCall

/-! ## Calls of an object -/

section

variable {text : JsonText}

theorem field_functionOf {call v : Json} {key : String}
    (h : (functionOf call).field? key = some v) :
    ∃ fn, call.field? "function" = some fn ∧ fn.field? key = some v := by
  cases call with
  | object fields =>
    unfold functionOf Json.valueAt value at h
    dsimp only at h
    cases hfn : fields.lookup "function" with
    | none =>
      rw [hfn] at h
      cases h
    | some fn =>
      rw [hfn] at h
      exact ⟨fn, hfn, h⟩
  | _ => cases h

theorem argumentsOf_eq {source args : Json} (h : argumentsOf text source = args) :
    (∃ key, source.field? key = some args) ∨
      (∃ key s, source.field? key = some (.string s) ∧ text.parse (bytes s) = some args) ∨
      args = .object [] := by
  unfold argumentsOf at h
  cases hfield : (source.field? "arguments").or (source.field? "parameters") with
  | none =>
    rw [hfield] at h
    exact .inr (.inr h.symm)
  | some v =>
    have hkey : ∃ key, source.field? key = some v := by
      rcases Option.or_eq_some_iff.mp hfield with hfirst | ⟨-, hsecond⟩
      · exact ⟨_, hfirst⟩
      · exact ⟨_, hsecond⟩
    obtain ⟨key, hkey⟩ := hkey
    rw [hfield, Option.getD_some] at h
    cases v with
    | string s =>
      dsimp only at h
      cases hread : text.parse (bytes s) with
      | none =>
        rw [hread] at h
        exact .inl ⟨key, h ▸ hkey⟩
      | some doc =>
        rw [hread] at h
        exact .inr (.inl ⟨key, s, hkey, hread.trans (congrArg some h)⟩)
    | _ => exact .inl ⟨key, h ▸ hkey⟩

/-- A call has the arguments of an object whose strings are some of those in the document. -/
theorem normaliseSingleCall_arguments {j call : Json}
    (h : normaliseSingleCall text j = .ok (some call)) :
    ∃ source, source.strings.Sublist j.strings ∧ j.strings ≠ [] ∧
      (functionOf call).field? "arguments" = some (argumentsOf text source) := by
  have hnamed : ∀ {name : String} {args : Json}, (if name = "" then none else
      some (Json.object [("function", .object [("arguments", args), ("name", .string name)]),
        ("id", .string "call_0"), ("type", .string "function")])) = some call →
      (functionOf call).field? "arguments" = some args := by
    intro name args h
    split at h
    · cases h
    · cases h
      rfl
  have hkeyed : ∀ {key v}, j.field? key = some v → v.strings.Sublist j.strings ∧
      j.strings ≠ [] := by
    intro key v hv
    have hsub := Json.strings_field hv
    exact ⟨(List.sublist_cons_self _ _).trans hsub, List.ne_nil_of_mem (hsub.subset
      List.mem_cons_self)⟩
  have hcontains : ∀ {key}, j.contains key = true → j.strings ≠ [] := by
    intro key hkey
    obtain ⟨v, hv⟩ := Option.isSome_iff_exists.mp hkey
    exact (hkeyed hv).2
  unfold normaliseSingleCall at h
  dsimp only at h
  split at h
  · rename_i hname
    obtain ⟨name, -, h⟩ := bind_eq_ok.mp h
    exact ⟨j, List.Sublist.refl _, hcontains hname, hnamed (Except.ok.inj h)⟩
  · split at h
    · rename_i htool
      obtain ⟨name, -, h⟩ := bind_eq_ok.mp h
      exact ⟨j, List.Sublist.refl _, hcontains htool, hnamed (Except.ok.inj h)⟩
    · split at h
      · rename_i fn hfn
        obtain ⟨name, -, h⟩ := bind_eq_ok.mp h
        exact ⟨.object fn, (hkeyed hfn).1, (hkeyed hfn).2, hnamed (Except.ok.inj h)⟩
      · cases h

theorem extractCalls_eq {block : List UInt8} {j : Json} {calls : List Json}
    (hparse : text.parse block = some j) (h : extractCalls text block = .ok calls) :
    j.field? "tool_calls" = some (.array calls) ∨
      ∃ single, normaliseSingleCall text j = .ok single ∧ calls = single.toList := by
  unfold extractCalls at h
  rw [hparse] at h
  dsimp only at h
  split at h
  · rename_i hcalls
    cases h
    exact .inl hcalls
  · obtain ⟨single, hsingle, h⟩ := bind_eq_ok.mp h
    cases h
    exact .inr ⟨single, hsingle, rfl⟩

end

namespace EmbeddedCall

variable {text : JsonText} {unescape : List UInt8 → String} (c : EmbeddedCall text)

/-- An object with strings of the arguments only has no call with these arguments. -/
theorem arguments_ne (hs : text.Shaped unescape) {block : List UInt8} {j call : Json}
    (hparse : text.parse block = some j) (hsub : j.strings.Subperm c.arguments.strings)
    (h : extractCalls text block = .ok [call]) :
    (functionOf call).field? "arguments" ≠ some c.arguments.canon := by
  intro hargs
  -- the arguments do not fit into what they are a field of
  have hlong : ∀ {key : String} {k : Json}, k.field? key = some c.arguments.canon →
      ¬ k.strings.Sublist j.strings := by
    intro key k hk hsource
    have hfirst := ((Json.strings_field hk).trans hsource).length_le
    have hsecond := hsub.length_le
    rw [Json.strings_canon, List.length_cons] at hfirst
    omega
  rcases extractCalls_eq hparse h with hcalls | ⟨single, hsingle, heq⟩
  · obtain ⟨fn, hfn, hfnargs⟩ := field_functionOf hargs
    refine hlong hfnargs ?_
    have hcall : (Json.array [call]).strings = call.strings := List.append_nil _
    have hfields := (List.sublist_cons_self _ _).trans (Json.strings_field hcalls)
    rw [hcall] at hfields
    exact ((List.sublist_cons_self _ _).trans (Json.strings_field hfn)).trans hfields
  · cases single with
    | none => cases heq
    | some found =>
      cases heq
      obtain ⟨source, hsource, hsome, hfound⟩ := normaliseSingleCall_arguments hsingle
      rw [hfound, Option.some.injEq] at hargs
      rcases argumentsOf_eq hargs with ⟨key, hkey⟩ | ⟨key, s, hkey, hread⟩ | hempty
      · exact hlong hkey hsource
      · have hs' := (Json.strings_field hkey).subset (List.mem_cons_of_mem _ List.mem_cons_self)
        have hmem := hsub.subset (hsource.subset hs')
        rw [← Json.strings_canon] at hmem
        exact Nat.lt_irrefl _ (hs.length_lt hread hmem)
      · have hnone := hsub.length_le
        rw [← Json.strings_canon c.arguments, hempty] at hnone
        exact hsome (List.eq_nil_of_length_eq_zero (Nat.le_zero.mp hnone))

end EmbeddedCall

end TruellmEngine.Server
