/-
  `sanitize_utf8`: the text up to the last complete sequence that a scan of its bytes finds. A
  lead byte with as many continuation bytes as it asks for is complete, whatever it encodes.

  Bytes that are no part of a sequence are skipped, and stay in the result if a complete sequence
  follows them. `sanitizeUtf8_valid_iff`: the result is valid exactly for valid texts with a tail
  in which nothing is complete.
-/
import TruellmEngine.Lib.Carry

namespace TruellmEngine.Server

open Lib

/-- The bytes of the sequence that a lead byte begins. -/
def utf8Need (c : UInt8) : Option Nat :=
  if c &&& 0x80 = 0x00 then some 1
  else if c &&& 0xE0 = 0xC0 then some 2
  else if c &&& 0xF0 = 0xE0 then some 3
  else if c &&& 0xF8 = 0xF0 then some 4
  else none

def isContinuation (c : UInt8) : Bool := c &&& 0xC0 = 0x80

/-- The loop: the rest from `i` on, and the end of the last complete sequence. -/
def lastGood (rest : List UInt8) (i last : Nat) : Nat :=
  match rest with
  | [] => last
  | c :: rest =>
    match utf8Need c with
    | none => lastGood rest (i + 1) last
    | some need =>
      if rest.length + 1 < need then last
      else if (rest.take (need - 1)).all isContinuation then
        lastGood (rest.drop (need - 1)) (i + need) (i + need)
      else lastGood rest (i + 1) last
termination_by rest.length
decreasing_by all_goals simp only [List.length_cons, List.length_drop]; omega

def sanitizeUtf8 (s : List UInt8) : List UInt8 := s.take (lastGood s 0 0)

/-- A scan of the tail finds nothing complete, up to a lead byte with too few bytes behind it. -/
def nothingComplete : List UInt8 → Bool
  | [] => true
  | c :: rest =>
    match utf8Need c with
    | none => nothingComplete rest
    | some need =>
      rest.length + 1 < need ||
        (!(rest.take (need - 1)).all isContinuation && nothingComplete rest)

/-- Valid UTF-8: code points, encoded one after the other. -/
def Utf8 (s : List UInt8) : Prop := ∃ cs, s = encodeAll String.utf8EncodeChar cs

/-! ## Code points -/

theorem isContinuation_tail (n : Nat) : isContinuation (UInt8.ofNat (n % 0x40 + 0x80)) = true := by
  have h : ∀ k : Fin 0x40, isContinuation (UInt8.ofNat (k + 0x80)) = true := by decide
  exact h ⟨n % 0x40, Nat.mod_lt _ (by decide)⟩

/-- A code point is a lead byte with the continuation bytes that it asks for. -/
theorem utf8EncodeChar_eq (c : Char) : ∃ lead rest, String.utf8EncodeChar c = lead :: rest ∧
    utf8Need lead = some (rest.length + 1) ∧ rest.all isContinuation = true := by
  unfold String.utf8EncodeChar
  dsimp only
  split_ifs with h1 h2 h3
  · have h : ∀ k : Fin 0x80, utf8Need (UInt8.ofNat k) = some 1 := by decide
    exact ⟨_, [], rfl, h ⟨_, Nat.lt_succ_of_le h1⟩, rfl⟩
  · have h : ∀ k : Fin 0x20, utf8Need (UInt8.ofNat (k + 0xc0)) = some 2 := by decide
    refine ⟨_, _, rfl, h ⟨_, Nat.mod_lt _ (by decide)⟩, ?_⟩
    simp only [List.all_cons, isContinuation_tail, List.all_nil, Bool.and_true]
  · have h : ∀ k : Fin 0x10, utf8Need (UInt8.ofNat (k + 0xe0)) = some 3 := by decide
    refine ⟨_, _, rfl, h ⟨_, Nat.mod_lt _ (by decide)⟩, ?_⟩
    simp only [List.all_cons, isContinuation_tail, List.all_nil, Bool.and_true]
  · have h : ∀ k : Fin 0x08, utf8Need (UInt8.ofNat (k + 0xf0)) = some 4 := by decide
    refine ⟨_, _, rfl, h ⟨_, Nat.mod_lt _ (by decide)⟩, ?_⟩
    simp only [List.all_cons, isContinuation_tail, List.all_nil, Bool.and_true]

theorem nothingComplete_of_midway {c? : Option Char} {rest : List UInt8}
    (h : Midway String.utf8EncodeChar c? rest) : nothingComplete rest = true := by
  rcases h with rfl | ⟨c, -, hfront, hne⟩
  · rfl
  · obtain ⟨lead, tail, hc, hneed, -⟩ := utf8EncodeChar_eq c
    rw [hc] at hfront hne
    cases rest with
    | nil => rfl
    | cons b rest =>
      obtain ⟨rfl, hrest⟩ := List.cons_prefix_cons.mp hfront
      have hlt : rest.length < tail.length := by
        refine Nat.lt_of_le_of_ne hrest.length_le ?_
        intro hlength
        exact hne (congrArg (b :: ·) (hrest.eq_of_length hlength))
      unfold nothingComplete
      rw [hneed]
      dsimp only
      rw [decide_eq_true (Nat.succ_lt_succ hlt)]
      rfl

/-! ## The scan -/

theorem lastGood_char (c : Char) (s : List UInt8) (i last : Nat) :
    lastGood (String.utf8EncodeChar c ++ s) i last =
      lastGood s (i + (String.utf8EncodeChar c).length)
        (i + (String.utf8EncodeChar c).length) := by
  obtain ⟨lead, rest, hc, hneed, hrest⟩ := utf8EncodeChar_eq c
  have hfits : ¬ (rest ++ s).length + 1 < rest.length + 1 := by
    rw [List.length_append]
    omega
  rw [hc, List.cons_append, lastGood, hneed]
  dsimp only
  rw [if_neg hfits, Nat.add_sub_cancel, List.take_left, if_pos hrest, List.drop_left,
    List.length_cons]

theorem lastGood_all (cs : List Char) (s : List UInt8) (i : Nat) :
    lastGood (encodeAll String.utf8EncodeChar cs ++ s) i i =
      lastGood s (i + (encodeAll String.utf8EncodeChar cs).length)
        (i + (encodeAll String.utf8EncodeChar cs).length) := by
  induction cs generalizing i with
  | nil => rfl
  | cons c cs ih =>
    rw [encodeAll_cons, List.append_assoc, lastGood_char, ih, List.length_append, Nat.add_assoc]

theorem nothingComplete_skip {c : UInt8} (rest : List UInt8) (h : utf8Need c = none) :
    nothingComplete (c :: rest) = nothingComplete rest := by
  rw [nothingComplete, h]

theorem nothingComplete_lead {c : UInt8} {need : Nat} (rest : List UInt8)
    (h : utf8Need c = some need) : nothingComplete (c :: rest) = true ↔
      rest.length + 1 < need ∨
        (¬ (rest.take (need - 1)).all isContinuation = true ∧ nothingComplete rest = true) := by
  rw [nothingComplete, h]
  simp only [Bool.or_eq_true, decide_eq_true_eq, Bool.and_eq_true, Bool.not_eq_true',
    Bool.not_eq_true]

theorem lastGood_nothing {s : List UInt8} (h : nothingComplete s = true) (i last : Nat) :
    lastGood s i last = last := by
  induction s generalizing i with
  | nil => rw [lastGood]
  | cons c rest ih =>
    rw [lastGood]
    cases hneed : utf8Need c with
    | none => exact ih (nothingComplete_skip rest hneed ▸ h) (i + 1)
    | some need =>
      dsimp only
      rcases (nothingComplete_lead rest hneed).mp h with hshort | ⟨hbad, hrest⟩
      · rw [if_pos hshort]
      · rw [if_neg hbad, ih hrest, ite_self]

/-- Where a scan of `s` ends: where it began, or behind a front of it, and nothing is complete in
    what is left. -/
def ScanEnds (s : List UInt8) (i last result : Nat) : Prop :=
  result = last ∧ nothingComplete s = true ∨
    ∃ front tail, s = front ++ tail ∧ result = i + front.length ∧ nothingComplete tail = true

theorem ScanEnds.skip {c : UInt8} {rest : List UInt8} {i last result : Nat}
    (h : ScanEnds rest (i + 1) last result)
    (hc : nothingComplete rest = true → nothingComplete (c :: rest) = true) :
    ScanEnds (c :: rest) i last result := by
  rcases h with ⟨hresult, hnothing⟩ | ⟨front, tail, hrest, hresult, hnothing⟩
  · exact .inl ⟨hresult, hc hnothing⟩
  · refine .inr ⟨c :: front, tail, congrArg (c :: ·) hrest, ?_, hnothing⟩
    rw [hresult, List.length_cons]
    omega

theorem lastGood_ends (s : List UInt8) (i last : Nat) :
    ScanEnds s i last (lastGood s i last) := by
  fun_induction lastGood s i last with
  | case1 => exact .inl ⟨rfl, rfl⟩
  | case2 i last c rest hneed ih =>
    apply ih.skip
    intro hrest
    rwa [nothingComplete_skip rest hneed]
  | case3 i last c rest need hneed hshort =>
    exact .inl ⟨rfl, (nothingComplete_lead rest hneed).mpr (.inl hshort)⟩
  | case4 i last c rest need hneed hfits hall ih =>
    have hpos : 0 < need := by
      unfold utf8Need at hneed
      split_ifs at hneed <;> cases hneed <;> decide
    have hlength : (c :: rest.take (need - 1)).length = need := by
      rw [List.length_cons, List.length_take]
      omega
    rcases ih with ⟨hresult, hnothing⟩ | ⟨front, tail, hrest, hresult, hnothing⟩
    · refine .inr ⟨c :: rest.take (need - 1), rest.drop (need - 1), ?_, ?_, hnothing⟩
      · rw [List.cons_append, List.take_append_drop]
      · rw [hresult, hlength]
    · refine .inr ⟨c :: rest.take (need - 1) ++ front, tail, ?_, ?_, hnothing⟩
      · rw [List.append_assoc, ← hrest, List.cons_append, List.take_append_drop]
      · rw [hresult, List.length_append, hlength, Nat.add_assoc]
  | case5 i last c rest need hneed hfits hall ih =>
    apply ih.skip
    intro hrest
    exact (nothingComplete_lead rest hneed).mpr (.inr ⟨hall, hrest⟩)

/-! ## The result -/

theorem sanitizeUtf8_append {v tail : List UInt8} (hv : Utf8 v)
    (htail : nothingComplete tail = true) : sanitizeUtf8 (v ++ tail) = v := by
  obtain ⟨cs, rfl⟩ := hv
  unfold sanitizeUtf8
  rw [lastGood_all, lastGood_nothing htail, Nat.zero_add, List.take_left]

/-- What is cut off has nothing complete. -/
theorem exists_sanitizeUtf8 (s : List UInt8) :
    ∃ tail, s = sanitizeUtf8 s ++ tail ∧ nothingComplete tail = true := by
  unfold sanitizeUtf8
  rcases lastGood_ends s 0 0 with ⟨hresult, hnothing⟩ | ⟨front, tail, hs, hresult, hnothing⟩
  · rw [hresult]
    exact ⟨s, rfl, hnothing⟩
  · refine ⟨tail, ?_, hnothing⟩
    rw [hresult, Nat.zero_add]
    nth_rewrite 2 [hs]
    rw [List.take_left]
    exact hs

/-- A code point that is not complete is cut off. -/
theorem sanitizeUtf8_cuts : Cuts String.utf8EncodeChar sanitizeUtf8 := by
  intro cs c? rest h
  exact sanitizeUtf8_append ⟨cs, rfl⟩ (nothingComplete_of_midway h)

/-- The result is valid, and it is the text before a code point that is not complete, exactly for
    valid texts with a tail in which nothing is complete. -/
theorem sanitizeUtf8_valid_iff (s : List UInt8) :
    (Utf8 (sanitizeUtf8 s) ∧ ∀ v c rest, Utf8 v → rest <+: String.utf8EncodeChar c →
        rest ≠ String.utf8EncodeChar c → s = v ++ rest → sanitizeUtf8 s = v) ↔
      ∃ v tail, s = v ++ tail ∧ Utf8 v ∧ nothingComplete tail = true := by
  constructor
  · rintro ⟨hvalid, -⟩
    obtain ⟨tail, hs, htail⟩ := exists_sanitizeUtf8 s
    exact ⟨sanitizeUtf8 s, tail, hs, hvalid, htail⟩
  · rintro ⟨v, tail, rfl, hv, htail⟩
    constructor
    · rwa [sanitizeUtf8_append hv htail]
    · rintro _ c rest ⟨cs, rfl⟩ hrest hne hs
      rw [hs]
      exact sanitizeUtf8_cuts cs (some c) rest (.inr ⟨c, rfl, hrest, hne⟩)

theorem not_utf8_of_lead {c : UInt8} {s : List UInt8} (h : utf8Need c = none) :
    ¬ Utf8 (c :: s) := by
  rintro ⟨cs, hcs⟩
  cases cs with
  | nil => cases hcs
  | cons d cs =>
    obtain ⟨lead, rest, hd, hneed, -⟩ := utf8EncodeChar_eq d
    rw [encodeAll_cons, hd] at hcs
    rw [(List.cons.inj hcs).1, hneed] at h
    cases h

/-- A continuation byte before a letter stays in the result. -/
theorem stray_byte_kept : ¬ Utf8 (sanitizeUtf8 [0x80, 0x61]) := by
  have hkept : sanitizeUtf8 [0x80, 0x61] = [0x80, 0x61] := by decide +kernel
  rw [hkept]
  exact not_utf8_of_lead rfl

end TruellmEngine.Server
