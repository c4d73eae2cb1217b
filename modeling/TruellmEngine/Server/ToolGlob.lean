/-
  `tool_glob_match`: the iterative match of a pattern with `*`, which on a mismatch goes back
  to the last `*` and lets it take one letter more.

  A position in the pattern or in the name is what is left from it. `toolGlobMatch_eq`: a `*` of
  the name is read by a `*` of the pattern where it stands before one, and this `*` then takes
  nothing else. What is matched is in the language of the pattern, but a name with a `*` may be
  in the language and not be matched (`toolGlobMatch_exact_iff`).
-/
import Mathlib.Data.List.Basic
import TruellmEngine.Lib.Glob

namespace TruellmEngine.Server

open Lib

/-- A state of the loop. `back` is the pattern behind the last `*`, and the name from `mark`
    on. -/
structure GlobScan where
  pat : List Char
  name : List Char
  back : Option (List Char × List Char) := none
  behind : ∀ b ∈ back, pat.length ≤ b.1.length ∧ name.length ≤ b.2.length

namespace GlobScan

def start (pat name : List Char) : GlobScan := ⟨pat, name, none, fun _ h => nomatch h⟩

/-- Both go on by a letter. -/
def advance (s : GlobScan) : GlobScan where
  pat := s.pat.tail
  name := s.name.tail
  back := s.back
  behind b hb := by
    have hle := s.behind b hb
    simp only [List.length_tail]
    omega

/-- Behind a `*`; the mark is here. -/
def atStar (s : GlobScan) : GlobScan where
  pat := s.pat.tail
  name := s.name
  back := some (s.pat.tail, s.name)
  behind b hb := by
    cases hb
    exact ⟨Nat.le_refl _, Nat.le_refl _⟩

/-- Back to the last `*`, with the mark one further. -/
def backTo (b : List Char × List Char) : GlobScan where
  pat := b.1
  name := b.2.tail
  back := some (b.1, b.2.tail)
  behind c hc := by
    cases hc
    exact ⟨Nat.le_refl _, Nat.le_refl _⟩

/-- One turn of the loop, while the name lasts; `none` is `return false`. -/
def turn (s : GlobScan) : Option GlobScan :=
  if s.pat.head? = s.name.head? then some s.advance
  else if s.pat.head? = some '*' then some s.atStar
  else s.back.map backTo

/-- What a turn makes less: the pattern behind the last `*`, the name from the mark, the
    name. -/
def rank (s : GlobScan) : Nat × Nat × Nat :=
  match s.back with
  | none => (s.pat.length + 1, 0, s.name.length)
  | some b => (b.1.length, b.2.length, s.name.length)

theorem turn_rank {s t : GlobScan} (hname : s.name ≠ []) (h : s.turn = some t) :
    Prod.Lex (· < ·) (Prod.Lex (· < ·) (· < ·)) t.rank s.rank := by
  obtain ⟨pat, name, back, behind⟩ := s
  obtain ⟨c, name, rfl⟩ := List.exists_cons_of_ne_nil hname
  unfold turn at h
  split at h
  · rename_i hhead
    cases h
    obtain ⟨pat, rfl⟩ := List.head?_eq_some_iff.mp hhead
    cases back with
    | none => exact Prod.Lex.left _ _ (Nat.lt_succ_self _)
    | some b => exact Prod.Lex.right _ (Prod.Lex.right _ (Nat.lt_succ_self _))
  · split at h
    · rename_i hstar
      cases h
      obtain ⟨pat, rfl⟩ := List.head?_eq_some_iff.mp hstar
      cases back with
      | none => exact Prod.Lex.left _ _ (Nat.lt_succ_of_lt (Nat.lt_succ_self _))
      | some b => exact Prod.Lex.left _ _ (Nat.lt_of_lt_of_le (Nat.lt_succ_self _) (behind b rfl).1)
    · obtain ⟨b, rfl, rfl⟩ := Option.map_eq_some_iff.mp h
      have hmark : b.2.tail.length < b.2.length := by
        have hle : (c :: name).length ≤ b.2.length := (behind b rfl).2
        rw [List.length_cons] at hle
        rw [List.length_tail]
        omega
      exact Prod.Lex.right _ (Prod.Lex.left _ _ hmark)

/-- The loop; in the end only wildcards may be left. -/
def loop (s : GlobScan) : Bool :=
  if _hname : s.name = [] then s.pat.all (· = '*')
  else
    match _hturn : s.turn with
    | some t => t.loop
    | none => false
termination_by s.rank
decreasing_by exact turn_rank _hname _hturn

end GlobScan

def toolGlobMatch (pat name : List Char) : Bool := (GlobScan.start pat name).loop

/-! ## What is matched -/

namespace GlobScan

/-- A reading of the rest in which the last `*` takes more letters than it has. -/
def Later (s : GlobScan) : Prop :=
  ∃ b ∈ s.back, ∃ rest, rest <:+ b.2.tail ∧ LetterFirst '*' b.1 rest

/-- What is behind the last `*` was read letter by letter, and `goal` is that the rest can be
    read from here, or with the last `*` taking more. -/
structure Reads (goal : Prop) (s : GlobScan) : Prop where
  letters : ∀ b ∈ s.back, ∃ seg, b.1 = seg ++ s.pat ∧ b.2 = seg ++ s.name
  goal_iff : goal ↔ LetterFirst '*' s.pat s.name ∨ s.Later

/-- Other readings are not ahead of this one. -/
theorem Reads.overtaken {goal : Prop} {s : GlobScan} (h : s.Reads goal) (hlater : s.Later) :
    ∃ rest, rest <:+ s.name ∧ LetterFirst '*' s.pat rest := by
  obtain ⟨b, hb, rest, hrest, hread⟩ := hlater
  obtain ⟨seg, hpat, hname⟩ := h.letters b hb
  rw [hpat] at hread
  apply hread.overtaken
  rw [← hname]
  exact hrest.trans (List.tail_suffix b.2)

/-- Behind a `*` that was just read, it may take any front of the rest. -/
theorem fresh_iff {s : GlobScan} (h : s.back = some (s.pat, s.name)) :
    LetterFirst '*' s.pat s.name ∨ s.Later ↔
      ∃ rest, rest <:+ s.name ∧ LetterFirst '*' s.pat rest := by
  have hlater : s.Later ↔ ∃ rest, rest <:+ s.name.tail ∧ LetterFirst '*' s.pat rest := by
    unfold Later
    rw [h]
    simp only [Option.mem_def, Option.some_inj, exists_eq_left']
  rw [hlater]
  constructor
  · rintro (hread | ⟨rest, hrest, hread⟩)
    · exact ⟨s.name, List.suffix_refl _, hread⟩
    · exact ⟨rest, hrest.trans (List.tail_suffix s.name), hread⟩
  · rintro ⟨rest, hrest, hread⟩
    cases hname : s.name with
    | nil =>
      rw [hname] at hrest
      exact .inl (List.suffix_nil.mp hrest ▸ hread)
    | cons c name =>
      rw [hname] at hrest
      rcases List.suffix_cons_iff.mp hrest with rfl | hshorter
      · exact .inl hread
      · exact .inr ⟨rest, hshorter, hread⟩

theorem Reads.advance {goal : Prop} {s : GlobScan} {c : Char} {pat name : List Char}
    (h : s.Reads goal) (hpat : s.pat = c :: pat) (hname : s.name = c :: name) :
    s.advance.Reads goal := by
  have hpat' : s.advance.pat = pat := congrArg List.tail hpat
  have hname' : s.advance.name = name := congrArg List.tail hname
  constructor
  · intro b hb
    obtain ⟨seg, hbpat, hbname⟩ := h.letters b hb
    refine ⟨seg ++ [c], ?_, ?_⟩
    · rw [hbpat, hpat, hpat', List.append_assoc]
      rfl
    · rw [hbname, hname, hname', List.append_assoc]
      rfl
  · rw [h.goal_iff, hpat, hname, hpat', hname']
    refine or_congr ?_ Iff.rfl
    constructor
    · intro hread
      cases hread with
      | letter _ hread => exact hread
      | run hc => exact absurd rfl hc
    · intro hread
      exact hread.letter c

theorem Reads.atStar {goal : Prop} {s : GlobScan} {c : Char} {pat name : List Char}
    (h : s.Reads goal) (hpat : s.pat = '*' :: pat) (hname : s.name = c :: name) (hc : c ≠ '*') :
    s.atStar.Reads goal := by
  have hpat' : s.atStar.pat = pat := congrArg List.tail hpat
  constructor
  · intro b hb
    cases hb
    exact ⟨[], rfl, rfl⟩
  · rw [fresh_iff rfl, h.goal_iff]
    show _ ↔ ∃ rest, rest <:+ s.name ∧ _
    rw [hpat', hpat]
    constructor
    · rintro (hread | hlater)
      · exact hread.behind
      · obtain ⟨rest, hrest, hread⟩ := h.overtaken hlater
        rw [hpat] at hread
        obtain ⟨rest', hrest', hread'⟩ := hread.behind
        exact ⟨rest', hrest'.trans hrest, hread'⟩
    · rintro ⟨rest, hrest, hread⟩
      rw [hname] at hrest ⊢
      exact .inl (.run hc hrest hread)

/-- Where letter and pattern differ, the last `*` has to take more. -/
theorem Reads.stuck {goal : Prop} {s : GlobScan} (h : s.Reads goal) (hname : s.name ≠ [])
    (hhead : s.pat.head? ≠ s.name.head?) (hstar : s.pat.head? ≠ some '*') :
    goal ↔ s.Later := by
  rw [h.goal_iff]
  apply or_iff_right
  intro hread
  generalize s.pat = pat at *
  generalize s.name = name at *
  cases hread with
  | nil => exact hname rfl
  | letter => exact hhead rfl
  | last => exact hstar rfl
  | run => exact hstar rfl

theorem Reads.backTo {goal : Prop} {s : GlobScan} {b : List Char × List Char}
    (hb : s.back = some b) (h : goal ↔ s.Later) : (GlobScan.backTo b).Reads goal := by
  constructor
  · intro b' hb'
    cases hb'
    exact ⟨[], rfl, rfl⟩
  · rw [fresh_iff rfl, h]
    unfold Later
    rw [hb]
    simp only [Option.mem_def, Option.some_inj, exists_eq_left']
    rfl

theorem Reads.turn {goal : Prop} {s t : GlobScan} (h : s.Reads goal) (hname : s.name ≠ [])
    (hturn : s.turn = some t) : t.Reads goal := by
  obtain ⟨c, name, hcons⟩ := List.exists_cons_of_ne_nil hname
  unfold GlobScan.turn at hturn
  split at hturn
  · rename_i hhead
    rw [hcons] at hhead
    obtain ⟨pat, hpat⟩ := List.head?_eq_some_iff.mp hhead
    cases hturn
    exact h.advance hpat hcons
  · rename_i hhead
    split at hturn
    · rename_i hstar
      obtain ⟨pat, hpat⟩ := List.head?_eq_some_iff.mp hstar
      cases hturn
      refine h.atStar hpat hcons ?_
      rintro rfl
      rw [hcons] at hhead
      exact hhead hstar
    · rename_i hstar
      obtain ⟨b, hb, rfl⟩ := Option.map_eq_some_iff.mp hturn
      exact .backTo hb (h.stuck hname hhead hstar)

/-- Without a `*` to go back to there is no reading left. -/
theorem Reads.not_of_turn {goal : Prop} {s : GlobScan} (h : s.Reads goal) (hname : s.name ≠ [])
    (hturn : s.turn = none) : ¬ goal := by
  unfold GlobScan.turn at hturn
  split at hturn
  · cases hturn
  · rename_i hhead
    split at hturn
    · cases hturn
    · rename_i hstar
      rw [h.stuck hname hhead hstar]
      rintro ⟨b, hb, -⟩
      rw [Option.map_eq_none_iff.mp hturn] at hb
      cases hb

theorem Reads.loop_iff {goal : Prop} {s : GlobScan} (h : s.Reads goal) :
    s.loop = true ↔ goal := by
  induction s using loop.induct with
  | case1 s hname =>
    rw [loop, dif_pos hname, List.all_eq_true, h.goal_iff, hname]
    simp only [decide_eq_true_eq, ← letterFirst_nil_iff]
    refine (or_iff_left_of_imp ?_).symm
    intro hlater
    obtain ⟨rest, hrest, hread⟩ := h.overtaken hlater
    rw [hname] at hrest
    exact List.suffix_nil.mp hrest ▸ hread
  | case2 s hname t hturn ih =>
    rw [← ih (h.turn hname hturn), loop, dif_neg hname]
    split
    · rename_i t' hturn'
      rw [Option.some.inj (hturn.symm.trans hturn')]
    · rename_i hnone
      rw [hturn] at hnone
      cases hnone
  | case3 s hname hturn =>
    rw [loop, dif_neg hname]
    split
    · rename_i t hturn'
      rw [hturn] at hturn'
      cases hturn'
    · exact iff_of_false Bool.false_ne_true (h.not_of_turn hname hturn)

end GlobScan

/-- The matcher reads a `*` of the name by a `*` of the pattern, if it can. -/
theorem toolGlobMatch_eq (pat name : List Char) :
    toolGlobMatch pat name = true ↔ LetterFirst '*' pat name := by
  apply GlobScan.Reads.loop_iff (s := .start pat name)
  constructor
  · intro b hb
    cases hb
  · refine (or_iff_left ?_).symm
    rintro ⟨b, hb, -⟩
    cases hb

theorem toolGlobMatch_sound {pat name : List Char} (h : toolGlobMatch pat name = true) :
    Glob '*' pat name :=
  ((toolGlobMatch_eq pat name).mp h).glob

/-- For a name without a `*` the match is exact. -/
theorem toolGlobMatch_plain {pat name : List Char} (h : '*' ∉ name) :
    toolGlobMatch pat name = true ↔ Glob '*' pat name := by
  rw [toolGlobMatch_eq]
  exact ⟨LetterFirst.glob, fun hglob => hglob.letterFirst h⟩

/-- The match is exact for the names that can be read with the letters first: all names without
    a `*`, and all that are not in the language. -/
theorem toolGlobMatch_exact_iff (pat name : List Char) :
    (toolGlobMatch pat name = true ↔ Glob '*' pat name) ↔
      (Glob '*' pat name → LetterFirst '*' pat name) := by
  rw [toolGlobMatch_eq]
  constructor
  · intro h
    exact h.mpr
  · intro h
    exact ⟨LetterFirst.glob, h⟩

/-- `*` does not match `*a`. -/
theorem starred_name_refused :
    ¬ (toolGlobMatch "*".toList "*a".toList = true ↔ Glob '*' "*".toList "*a".toList) := by
  have hlanguage : Glob '*' ['*'] ['*', 'a'] := ((Glob.nil.skip).eat 'a').eat '*'
  have hrefused : ¬ LetterFirst '*' ['*'] ['*', 'a'] := by
    intro h
    cases h with
    | letter _ h => cases h
    | run hc => exact hc rfl
  rw [toolGlobMatch_eq]
  intro h
  exact hrefused (h.mpr hlanguage)

end TruellmEngine.Server
