/-
  Where calls stand in a text, and in which forms: what is said here goes without the search
  that finds them.

  A document has calls if it has an array of them that is not empty, or the name of one. It
  stands in a text if it is all of it, if marks enclose it, or if matching braces do.
  `parseToolCalls_trim_iff`: calls are found in a text, read without what is trimmed from its
  ends, exactly if a document that has calls stands in it.
-/
import TruellmEngine.Lib.SepList
import TruellmEngine.Server.EmbeddedCalls

namespace TruellmEngine.Server

open Lib
open Lib.Json (value getString)

/-! ## Documents -/

/-- One call, by its name. -/
def HasName (j : Json) : Prop :=
  match j.field? "name", j.field? "tool", j.field? "function" with
  | some name, _, _ => name ≠ .string ""
  | none, some name, _ => name ≠ .string ""
  | none, none, some (.object fn) =>
    ∃ name, (Json.object fn).field? "name" = some name ∧ name ≠ .string ""
  | none, none, _ => False

/-- The document has calls: an array of them, or the name of one. -/
def HasCalls (j : Json) : Prop :=
  match j.field? "tool_calls" with
  | some (.array calls) => calls ≠ []
  | _ => HasName j

/-- The block is a document that has calls. -/
def CallBlock (text : JsonText) (block : List UInt8) : Prop :=
  ∃ j, text.parse block = some j ∧ HasCalls j

theorem value_of_field {j v : Json} {key : String} (h : j.field? key = some v) (dflt : String) :
    value getString j key dflt = getString v := by
  cases j with
  | object fields =>
    have hlookup : fields.lookup key = some v := h
    unfold value
    dsimp only
    rw [hlookup]
  | _ => cases h

/-- A call is one unless its name is the empty text; another than a text cannot be read. -/
theorem named_eq_none {name : Json} {call : String → Json} :
    (getString name >>= fun s => .ok (if s = "" then none else some (call s)) :
      Except TypeError (Option Json)) = .ok none ↔ name = .string "" := by
  cases name with
  | string s =>
    show Except.ok (if s = "" then none else some (call s)) = Except.ok none ↔ _
    by_cases hs : s = ""
    · rw [if_pos hs, hs]
      exact iff_of_true rfl rfl
    · rw [if_neg hs]
      exact iff_of_false (fun h => nomatch h) fun h => hs (Json.string.inj h)
  | _ => exact iff_of_false (fun h => nomatch h) fun h => nomatch h

theorem normaliseSingleCall_eq_none (text : JsonText) (j : Json) :
    normaliseSingleCall text j = .ok none ↔ ¬ HasName j := by
  unfold normaliseSingleCall HasName Json.contains
  cases hname : j.field? "name" with
  | some name =>
    dsimp only
    rw [if_pos Option.isSome_some, value_of_field hname]
    exact named_eq_none.trans not_not.symm
  | none =>
    dsimp only
    rw [if_neg (by simp)]
    cases htool : j.field? "tool" with
    | some name =>
      dsimp only
      rw [if_pos Option.isSome_some, value_of_field htool]
      exact named_eq_none.trans not_not.symm
    | none =>
      rw [if_neg (by simp)]
      cases j.field? "function" with
      | none => exact iff_of_true rfl not_false
      | some fn =>
        cases fn with
        | object fields =>
          dsimp only
          cases hfn : (Json.object fields).field? "name" with
          | some name =>
            rw [value_of_field hfn]
            refine named_eq_none.trans (not_not.symm.trans (not_congr ?_))
            simp
          | none =>
            have hempty : value getString (.object fields) "name" "" = .ok "" := by
              have hlookup : fields.lookup "name" = none := hfn
              unfold value
              dsimp only
              rw [hlookup]
            rw [hempty]
            exact iff_of_true rfl (by simp)
        | _ => exact iff_of_true rfl not_false

theorem extractCalls_eq_nil (text : JsonText) (block : List UInt8) :
    extractCalls text block = .ok [] ↔ ¬ CallBlock text block := by
  unfold extractCalls CallBlock
  cases text.parse block with
  | none => exact iff_of_true rfl fun ⟨_, h, _⟩ => nomatch h
  | some j =>
    have hone : (∃ j', some j = some j' ∧ HasCalls j') ↔ HasCalls j :=
      ⟨fun ⟨_, h, hcalls⟩ => Option.some.inj h ▸ hcalls, fun h => ⟨j, rfl, h⟩⟩
    rw [hone]
    unfold HasCalls
    have hsingle : (do return (← normaliseSingleCall text j).toList :
        Except TypeError (List Json)) = .ok [] ↔ ¬ HasName j := by
      rw [← normaliseSingleCall_eq_none text j]
      cases normaliseSingleCall text j with
      | error e => exact iff_of_false (fun h => nomatch h) fun h => nomatch h
      | ok call =>
        cases call with
        | none => exact iff_of_true rfl rfl
        | some call => exact iff_of_false (fun h => nomatch h) fun h => nomatch h
    dsimp only
    cases j.field? "tool_calls" with
    | none => exact hsingle
    | some v =>
      cases v with
      | array calls =>
        exact ⟨fun h => not_not.mpr (Except.ok.inj h), fun h => congrArg _ (not_not.mp h)⟩
      | _ => exact hsingle

/-- No calls are found exactly if no attempt is at a document that has some. -/
theorem parseToolCalls_eq_nil (text : JsonText) (raw : List UInt8) :
    parseToolCalls text raw = .ok [] ↔
      ∀ block, some block ∈ attempts raw → ¬ CallBlock text block := by
  unfold parseToolCalls
  constructor
  · intro h block hblock
    rw [← extractCalls_eq_nil]
    rcases blocks_cases text (attempts raw) with hall | ⟨before, first, rest, heq, hbefore, hfirst⟩
    · exact hall block hblock
    · rw [heq, firstCalls_none hbefore, firstCalls_cons_stop hfirst] at h
      exact absurd h hfirst
  · intro h
    have hall : firstCalls text (attempts raw ++ []) = .ok [] :=
      firstCalls_none fun block hblock => (extractCalls_eq_nil text block).mpr (h block hblock)
    rwa [List.append_nil] at hall

/-! ## Places -/

section Cut

variable {α : Type*} [DecidableEq α] {pat s gap front rest : List α} {blank : α → Bool}

theorem cut_eq_none_iff : cut pat s = none ↔ ¬ pat <:+: s := by
  refine ⟨cut_eq_none, fun h => ?_⟩
  cases hcut : cut pat s with
  | none => rfl
  | some halves => exact absurd ⟨halves.1, halves.2, (cut_eq hcut).symm⟩ h

/-- What goes before a text, and has no part of the pattern's beginning, is passed over. -/
theorem cut_append_left (hgap : ∀ c ∈ gap, blank c = true) {c : α} {pat' : List α}
    (hc : blank c = false) :
    cut (c :: pat') (gap ++ s) = (cut (c :: pat') s).map fun h => (gap ++ h.1, h.2) := by
  induction gap with
  | nil => simp
  | cons d gap ih =>
    obtain ⟨hd, hgap⟩ := List.forall_mem_cons.mp hgap
    have hprefix : ¬ (c :: pat').isPrefixOf (d :: (gap ++ s)) = true := by
      rw [List.isPrefixOf_iff_prefix, List.cons_prefix_cons]
      rintro ⟨rfl, -⟩
      exact absurd (hc.symm.trans hd) (by decide)
    rw [List.cons_append, cut, if_neg hprefix, ih hgap, Option.map_map]
    rfl

/-- What goes behind a text changes no occurrence in it. -/
theorem cut_append_right (h : cut pat s = some (front, rest)) (gap : List α) :
    cut pat (s ++ gap) = some (front, rest ++ gap) := by
  have hs := cut_eq h
  rw [hs, List.append_assoc, List.append_assoc]
  apply cut_of_first
  intro x y heq
  by_contra hlt
  have hx : (x ++ pat).length ≤ s.length := by
    rw [hs]
    simp only [List.length_append]
    omega
  have hlonger : x ++ pat <+: s ++ gap := by
    refine ⟨y, ?_⟩
    rw [hs, List.append_assoc, ← heq]
    simp
  obtain ⟨y', hy⟩ := List.prefix_of_prefix_length_le hlonger (List.prefix_append _ _) hx
  exact hlt (cut_first h ((List.append_assoc ..).symm.trans hy).symm)

/-- A pattern that is found only with what goes behind the text leaves nothing else. -/
theorem rest_of_cut_append (hnone : cut pat s = none)
    (h : cut pat (s ++ gap) = some (front, rest)) :
    rest <:+ gap := by
  have heq := cut_eq h
  rcases List.append_eq_append_iff.mp heq.symm with ⟨a, hs, hrest⟩ | ⟨a, -, hgap⟩
  · exact absurd ⟨front, a, hs.symm⟩ (cut_eq_none hnone)
  · exact ⟨a, hgap.symm⟩

/-- A pattern whose end is not in the gap is found in the text only. -/
theorem cut_append_gap (hgap : ∀ c ∈ gap, blank c = true) {c : α} {pat' : List α}
    (hc : blank c = false) : cut (pat' ++ [c]) (s ++ gap) =
      (cut (pat' ++ [c]) s).map fun h => (h.1, h.2 ++ gap) := by
  cases hcut : cut (pat' ++ [c]) s with
  | some halves => exact cut_append_right hcut gap
  | none =>
    refine cut_eq_none_iff.mpr fun hinfix => ?_
    obtain ⟨x, y, hxy⟩ := hinfix
    have hxy : (x ++ pat') ++ (c :: y) = s ++ gap := by
      rw [← hxy]
      simp
    rcases List.append_eq_append_iff.mp hxy with ⟨a, hs, hrest⟩ | ⟨a, -, hrest⟩
    · cases a with
      | nil =>
        have hblank := hgap c (by simp [← show _ = gap from hrest])
        exact absurd (hc.symm.trans hblank) (by decide)
      | cons d a =>
        obtain ⟨rfl, -⟩ := List.cons.inj hrest
        exact cut_eq_none hcut ⟨x, a, by simp [hs]⟩
    · exact absurd (hc.symm.trans (hgap c (by simp [hrest]))) (by decide)

end Cut

theorem between_eq_some {first last s block : List UInt8} :
    between first last s = some block ↔
      ∃ front rest back, cut first s = some (front, rest) ∧ cut last rest = some (block, back) := by
  unfold between
  constructor
  · intro h
    obtain ⟨⟨front, rest⟩, hfirst, h⟩ := Option.bind_eq_some_iff.mp h
    obtain ⟨⟨block', back⟩, hlast, h⟩ := Option.bind_eq_some_iff.mp h
    cases h
    exact ⟨front, rest, back, hfirst, hlast⟩
  · rintro ⟨front, rest, back, hfirst, hlast⟩
    rw [hfirst]
    show (cut last rest).bind _ = _
    rw [hlast]
    rfl

/-- The tag has no end mark behind it. -/
def Endless (s rest : List UInt8) : Prop :=
  (∃ front, cut Mark.pythonTag.first s = some (front, rest)) ∧ ¬ Mark.pythonTag.last <:+: rest

theorem find_eq_some {mark : Mark} {s block : List UInt8} :
    mark.find s = some block ↔ between mark.first mark.last s = some block ∨
      mark = .pythonTag ∧ Endless s block := by
  rw [Mark.find_eq, between_eq_some, Option.bind_eq_some_iff]
  constructor
  · rintro ⟨⟨front, rest⟩, hfirst, hpart⟩
    rcases Mark.part_eq_some hpart with ⟨back, hlast⟩ | ⟨rfl, hlast, rfl⟩
    · exact .inl ⟨front, rest, back, hfirst, hlast⟩
    · exact .inr ⟨rfl, ⟨front, hfirst⟩, cut_eq_none hlast⟩
  · rintro (⟨front, rest, back, hfirst, hlast⟩ | ⟨rfl, ⟨front, hfirst⟩, hlast⟩)
    · exact ⟨(front, rest), hfirst, Mark.part_of_cut hlast⟩
    · exact ⟨(front, block), hfirst, Mark.part_of_endless hlast⟩

/-- Matching braces. -/
def Braced (block : List UInt8) : Prop := Enclosed 123 125 block ∧ block.head? = some 123

theorem mem_braceBlocks_iff {s block : List UInt8} :
    some block ∈ braceBlocks s ↔ Braced block ∧ block <:+: s := by
  constructor
  · intro h
    obtain ⟨x, v, rfl, hmatching⟩ := mem_braceBlocks h
    obtain ⟨t, rfl⟩ : ∃ t, block = 123 :: t := by
      obtain ⟨t, -, heq⟩ := Option.map_eq_some_iff.mp hmatching
      exact ⟨t, heq.symm⟩
    obtain ⟨hfront, henclosed⟩ := matching_zero.mp hmatching
    refine ⟨⟨henclosed, rfl⟩, ?_⟩
    exact (List.prefix_cons_inj 123 |>.mpr hfront).isInfix.trans (List.suffix_append x _).isInfix
  · rintro ⟨⟨henclosed, hhead⟩, x, y, rfl⟩
    cases block with
    | nil => cases hhead
    | cons c t =>
      cases hhead
      have hmatching : matching 0 (123 :: (t ++ y)) = some (123 :: t) :=
        matching_zero.mpr ⟨List.prefix_append _ _, henclosed⟩
      -- the blocks that begin before it do not matter
      have hmem : ∀ x : List UInt8, some (123 :: t) ∈ braceBlocks (x ++ 123 :: (t ++ y)) := by
        intro x
        induction x with
        | nil => exact hmatching ▸ List.mem_cons_self
        | cons d x ih =>
          rw [List.cons_append, braceBlocks]
          split
          · exact List.mem_cons_of_mem _ ih
          · exact ih
      simpa using hmem x

theorem mem_attempts {s block : List UInt8} :
    some block ∈ attempts s ↔ block = s ∨ (∃ mark : Mark, mark.find s = some block) ∨
      Braced block ∧ block <:+: s := by
  have hmarks : (∃ mark : Mark, mark.find s = some block) ↔
      some block ∈ Mark.all.map (·.find s) := by
    rw [List.mem_map]
    exact ⟨fun ⟨mark, h⟩ => ⟨mark, mark.mem_all, h⟩, fun ⟨mark, _, h⟩ => ⟨mark, h⟩⟩
  have hlist : attempts s = some s :: (Mark.all.map (·.find s) ++ braceBlocks s) := rfl
  rw [hmarks, ← mem_braceBlocks_iff, hlist, List.mem_cons, List.mem_append, Option.some_inj]

/-! ## Texts -/

/-- A document that has calls stands in the text: it is all of it but for what `blank` says at
    its ends, marks enclose it, it is what is behind the tag, or matching braces enclose it. -/
inductive CallsStand (text : JsonText) (blank : UInt8 → Bool) (s : List UInt8) : Prop
  | whole {gap block gap' : List UInt8} : s = gap ++ (block ++ gap') →
      (∀ c ∈ gap, blank c = true) → (∀ c ∈ gap', blank c = true) →
      (∀ c ∈ block.head?, blank c = false) → (∀ c ∈ block.getLast?, blank c = false) →
      CallBlock text block → CallsStand text blank s
  | marked (mark : Mark) {block : List UInt8} : between mark.first mark.last s = some block →
      CallBlock text block → CallsStand text blank s
  | tagged {block gap : List UInt8} : Endless s (block ++ gap) →
      (∀ c ∈ gap, blank c = true) → (∀ c ∈ block.getLast?, blank c = false) →
      CallBlock text block → CallsStand text blank s
  | braced {block : List UInt8} : Braced block → block <:+: s → CallBlock text block →
      CallsStand text blank s

section Trim

variable {α : Type*} {blank : α → Bool} {gap gap' s t x y u : List α} {c : α}

/-- A text that begins with no blank begins behind the blanks. -/
theorem behind_gap (hgap : ∀ c ∈ gap, blank c = true) (hc : blank c = false)
    (h : gap ++ s = x ++ c :: y) : ∃ x', s = x' ++ c :: y := by
  rcases List.append_eq_append_iff.mp h with ⟨a, -, hs⟩ | ⟨a, hx, hs⟩
  · exact ⟨a, hs⟩
  · cases a with
    | nil => exact ⟨[], hs.symm⟩
    | cons d a =>
      obtain ⟨rfl, -⟩ := List.cons.inj hs
      exact absurd (hc.symm.trans (hgap c (by simp [hx]))) (by decide)

/-- A text that ends in no blank ends before the blanks. -/
theorem before_gap (hgap : ∀ c ∈ gap, blank c = true) (hc : blank c = false)
    (h : s ++ gap = (x ++ [c]) ++ y) : ∃ y', s = (x ++ [c]) ++ y' := by
  rcases List.append_eq_append_iff.mp h with ⟨a, hx, hgap'⟩ | ⟨a, hs, -⟩
  · rcases List.eq_nil_or_concat a with rfl | ⟨a, d, rfl⟩
    · exact ⟨[], by rw [List.append_nil] at hx; simp [hx]⟩
    · rw [List.concat_eq_append, ← List.append_assoc] at hx
      obtain ⟨-, hd⟩ := List.append_inj' hx rfl
      cases hd
      exact absurd (hc.symm.trans (hgap c (by simp [hgap']))) (by decide)
  · exact ⟨a, hs⟩

theorem eq_of_append_gap (hgap : ∀ c ∈ gap, blank c = true) (hgap' : ∀ c ∈ gap', blank c = true)
    (hs : ∀ c ∈ s.getLast?, blank c = false) (ht : ∀ c ∈ t.getLast?, blank c = false)
    (h : s ++ gap = t ++ gap') : s = t := by
  have hnil : ∀ {u a g : List α}, (∀ c ∈ g, blank c = true) →
      (∀ c ∈ (u ++ a).getLast?, blank c = false) → (∀ c ∈ a, c ∈ g) → u ++ a = u := by
    intro u a g hg hlast hsub
    rcases List.eq_nil_or_concat a with rfl | ⟨a, d, rfl⟩
    · exact List.append_nil u
    · have hd : blank d = false := hlast d (by simp)
      exact absurd (hd.symm.trans (hg d (hsub d (by simp)))) (by decide)
  rcases List.append_eq_append_iff.mp h with ⟨a, rfl, ha⟩ | ⟨a, rfl, ha⟩
  · exact (hnil hgap ht fun c hc => ha ▸ List.mem_append_left _ hc).symm
  · exact hnil hgap' hs fun c hc => ha ▸ List.mem_append_left _ hc

end Trim

section Around

variable {blank : UInt8 → Bool} {gap gap' s block : List UInt8}

/-- Braces and the characters at the ends of the marks are not trimmed away. -/
def KeepsMarks (blank : UInt8 → Bool) : Prop := ∀ c ∈ bytes "\x7b\x7d`<>", blank c = false

theorem Mark.ends (mark : Mark) : ∃ c first' last' d, mark.first = c :: first' ∧
    mark.last = last' ++ [d] ∧ c ∈ bytes "\x7b\x7d`<>" ∧ d ∈ bytes "\x7b\x7d`<>" := by
  have hlast : ∀ mark : Mark, mark.last = mark.last.dropLast ++ [mark.last.getLastD 0] := by
    intro mark
    cases mark <;> decide +kernel
  refine ⟨mark.first.headD 0, mark.first.tail, mark.last.dropLast, mark.last.getLastD 0, ?_,
    hlast mark, ?_, ?_⟩ <;> cases mark <;> decide +kernel

theorem between_around (hkeeps : KeepsMarks blank) (hgap : ∀ c ∈ gap, blank c = true)
    (hgap' : ∀ c ∈ gap', blank c = true) (mark : Mark) :
    between mark.first mark.last (gap ++ (s ++ gap')) = between mark.first mark.last s := by
  obtain ⟨c, first', last', d, hfirst, hlast, hc, hd⟩ := mark.ends
  rw [hfirst, hlast]
  apply Option.ext
  intro block
  rw [between_eq_some, between_eq_some, cut_append_left hgap (hkeeps c hc)]
  constructor
  · rintro ⟨front, rest, back, hcut, hend⟩
    obtain ⟨⟨front', rest'⟩, hcut', heq⟩ := Option.map_eq_some_iff.mp hcut
    cases heq
    cases hs : cut (c :: first') s with
    | some halves =>
      rw [cut_append_right hs gap'] at hcut'
      cases hcut'
      rw [cut_append_gap hgap' (hkeeps d hd)] at hend
      obtain ⟨⟨block', back'⟩, hend', heq⟩ := Option.map_eq_some_iff.mp hend
      cases heq
      exact ⟨halves.1, halves.2, back', rfl, hend'⟩
    | none =>
      have hd' : d ∈ rest' := by
        rw [show rest' = _ from cut_eq hend]
        simp
      have hblank : blank d = true := hgap' d ((rest_of_cut_append hs hcut').subset hd')
      exact absurd ((hkeeps d hd).symm.trans hblank) (by decide)
  · rintro ⟨front, rest, back, hcut, hend⟩
    refine ⟨gap ++ front, rest ++ gap', back ++ gap', ?_, cut_append_right hend gap'⟩
    rw [cut_append_right hcut gap']
    rfl

theorem endless_around (hkeeps : KeepsMarks blank) (hgap : ∀ c ∈ gap, blank c = true)
    (hgap' : ∀ c ∈ gap', blank c = true) {rest : List UInt8} :
    Endless (gap ++ (s ++ gap')) rest ↔ ∃ block, Endless s block ∧ rest = block ++ gap' := by
  have htag : Mark.pythonTag.first = bytes "<|python_tag|" ++ [62] := by decide +kernel
  have hend : ∀ block : List UInt8, Mark.pythonTag.last <:+: block ++ gap' ↔
      Mark.pythonTag.last <:+: block := by
    intro block
    obtain ⟨c, first', last', d, -, hlast, -, hd⟩ := Mark.pythonTag.ends
    rw [← not_iff_not, ← cut_eq_none_iff, ← cut_eq_none_iff, hlast,
      cut_append_gap hgap' (hkeeps d hd), Option.map_eq_none_iff]
  have hcut : cut Mark.pythonTag.first (gap ++ (s ++ gap')) =
      (cut Mark.pythonTag.first s).map fun h => (gap ++ h.1, h.2 ++ gap') := by
    obtain ⟨c, first', last', d, hfirst, -, hc, -⟩ := Mark.pythonTag.ends
    rw [hfirst, cut_append_left hgap (hkeeps c hc), ← hfirst, htag,
      cut_append_gap hgap' (hkeeps 62 (by decide +kernel)), Option.map_map]
    rfl
  unfold Endless
  rw [hcut]
  constructor
  · rintro ⟨⟨front, hfront⟩, hlast⟩
    obtain ⟨⟨front', block⟩, hs, heq⟩ := Option.map_eq_some_iff.mp hfront
    cases heq
    exact ⟨block, ⟨⟨front', hs⟩, fun h => hlast ((hend block).mpr h)⟩, rfl⟩
  · rintro ⟨block, ⟨⟨front, hs⟩, hlast⟩, rfl⟩
    exact ⟨⟨gap ++ front, by rw [hs]; rfl⟩, fun h => hlast ((hend block).mp h)⟩

theorem Braced.last (h : Braced block) : ∃ x, block = x ++ [125] := by
  obtain ⟨henclosed, hhead⟩ := h
  rcases List.eq_nil_or_concat block with rfl | ⟨x, c, rfl⟩
  · cases hhead
  · rw [List.concat_eq_append] at henclosed hhead ⊢
    have hwhole := henclosed.whole
    rw [List.count_append, List.count_append] at hwhole
    have hx : x ≠ [] := by
      rintro rfl
      cases hhead
      exact absurd hwhole (by decide)
    have hlt := henclosed.before x (List.prefix_append _ _) hx (by simp)
    by_cases hc : c = 125
    · exact ⟨x, by rw [hc]⟩
    · rw [List.count_singleton, List.count_singleton, beq_eq_false_iff_ne.mpr hc] at hwhole
      simp only [Bool.false_eq_true, if_false] at hwhole
      omega

theorem braced_around (hkeeps : KeepsMarks blank) (hgap : ∀ c ∈ gap, blank c = true)
    (hgap' : ∀ c ∈ gap', blank c = true) (h : Braced block) :
    block <:+: gap ++ (s ++ gap') ↔ block <:+: s := by
  constructor
  · rintro ⟨x, y, hxy⟩
    obtain ⟨b, hb⟩ := h.last
    obtain ⟨v, hv⟩ : ∃ v, block = 123 :: v := by
      cases block with
      | nil => cases h.2
      | cons c v =>
        cases h.2
        exact ⟨v, rfl⟩
    obtain ⟨x', hx'⟩ : ∃ x', s ++ gap' = x' ++ 123 :: (v ++ y) := by
      refine behind_gap (x := x) hgap (hkeeps 123 (by decide +kernel)) ?_
      rw [← hxy, hv]
      simp
    have hends : s ++ gap' = ((x' ++ b) ++ [125]) ++ y := by
      rw [hx', List.append_assoc x', ← hb, hv]
      simp
    obtain ⟨y', hy'⟩ := before_gap hgap' (hkeeps 125 (by decide +kernel)) hends
    exact ⟨x', y', by rw [hy', hb]; simp⟩
  · exact fun hs => hs.trans ⟨gap, gap', by simp⟩

/-- In a text read without what is trimmed from its ends, calls are found exactly if a document
    that has calls stands in the text. -/
theorem parseToolCalls_trim_iff (hkeeps : KeepsMarks blank) (text : JsonText) (s : List UInt8) :
    parseToolCalls text (trim blank s) ≠ .ok [] ↔ CallsStand text blank s := by
  obtain ⟨gap, gap', hs, hgap, hgap'⟩ := trim_split blank s
  obtain ⟨hhead, hlast⟩ := trim_ends blank s
  have hbetween := between_around (s := trim blank s) hkeeps hgap hgap'
  have hendless := @endless_around _ _ _ (trim blank s) hkeeps hgap hgap'
  rw [← hs] at hendless
  -- what is behind the tag ends as the trimmed text does
  have htail : ∀ rest, Endless (trim blank s) rest → ∀ c ∈ rest.getLast?, blank c = false := by
    rintro rest ⟨⟨front, hfront⟩, -⟩ c hc
    refine hlast c ?_
    rw [cut_eq hfront, List.getLast?_append, Option.mem_def.mp hc]
    rfl
  rw [Ne, parseToolCalls_eq_nil]
  push Not
  constructor
  · rintro ⟨block, hblock, hcall⟩
    rcases mem_attempts.mp hblock with rfl | ⟨mark, hmark⟩ | ⟨hbraced, hinfix⟩
    · exact .whole hs hgap hgap' hhead hlast hcall
    · rcases find_eq_some.mp hmark with hmarks | ⟨-, htag⟩
      · exact .marked mark (by rw [hs, hbetween mark]; exact hmarks) hcall
      · exact .tagged (hendless.mpr ⟨block, htag, rfl⟩) hgap' (htail block htag) hcall
    · refine .braced hbraced ?_ hcall
      rw [hs]
      exact (braced_around hkeeps hgap hgap' hbraced).mpr hinfix
  · rintro (⟨hsplit, hg, hg', hh, hl, hcall⟩ | ⟨mark, hmarks, hcall⟩ | ⟨htag, hg, hl, hcall⟩ |
      ⟨hbraced, hinfix, hcall⟩)
    · rename_i block _
      refine ⟨block, mem_attempts.mpr (.inl ?_), hcall⟩
      rw [hsplit, trim_around hg hg' hh hl]
    · rename_i block
      refine ⟨block, mem_attempts.mpr (.inr (.inl ⟨mark, find_eq_some.mpr (.inl ?_)⟩)), hcall⟩
      rw [hs, hbetween mark] at hmarks
      exact hmarks
    · rename_i block _
      obtain ⟨rest, hrest, heq⟩ := hendless.mp htag
      have hsame : block = rest := eq_of_append_gap hg hgap' hl (htail rest hrest) heq
      rw [hsame] at hcall
      exact ⟨rest, mem_attempts.mpr (.inr (.inl ⟨.pythonTag,
        find_eq_some.mpr (.inr ⟨rfl, hrest⟩)⟩)), hcall⟩
    · rename_i block
      rw [hs] at hinfix
      exact ⟨block, mem_attempts.mpr (.inr (.inr
        ⟨hbraced, (braced_around hkeeps hgap hgap' hbraced).mp hinfix⟩)), hcall⟩

end Around

end TruellmEngine.Server
