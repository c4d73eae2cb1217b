/-
  The language of a pattern with one wildcard, over any alphabet: the wildcard stands for any
  run, possibly empty, and each other letter for itself.

  `LetterFirst` is the language of a matcher that tries letters before wildcards. The two are the
  same for words without the letter of the wildcard.
-/
import Mathlib.Data.List.Basic

namespace TruellmEngine.Lib

/-- `Glob star pat word`: the word is in the language of the pattern. -/
inductive Glob {α : Type*} (star : α) : List α → List α → Prop where
  | nil : Glob star [] []
  | letter {pat word : List α} (c : α) : Glob star pat word → Glob star (c :: pat) (c :: word)
  /-- The run ends here. -/
  | skip {pat word : List α} : Glob star pat word → Glob star (star :: pat) word
  /-- The run takes one more letter. -/
  | eat {pat word : List α} (c : α) :
    Glob star (star :: pat) word → Glob star (star :: pat) (c :: word)

/-- The word is in the language with no wildcard that takes a run from its own letter on: before
    that letter it stands for the letter alone. -/
inductive LetterFirst {α : Type*} (star : α) : List α → List α → Prop where
  | nil : LetterFirst star [] []
  | letter {pat word : List α} (c : α) :
    LetterFirst star pat word → LetterFirst star (c :: pat) (c :: word)
  | last {pat : List α} : LetterFirst star pat [] → LetterFirst star (star :: pat) []
  | run {pat word rest : List α} {c : α} (hc : c ≠ star) (hrest : rest <:+ c :: word) :
    LetterFirst star pat rest → LetterFirst star (star :: pat) (c :: word)

section

variable {α : Type*} {star : α} {pat word : List α}

/-- A run may take any front of the word. -/
theorem Glob.of_suffix {rest : List α} (hrest : rest <:+ word) (h : Glob star pat rest) :
    Glob star (star :: pat) word := by
  obtain ⟨front, rfl⟩ := hrest
  induction front with
  | nil => exact h.skip
  | cons c front ih => exact ih.eat c

theorem LetterFirst.glob (h : LetterFirst star pat word) : Glob star pat word := by
  induction h with
  | nil => exact .nil
  | letter c _ ih => exact ih.letter c
  | last _ ih => exact ih.skip
  | run _ hrest _ ih => exact ih.of_suffix hrest

/-- In a word without the letter of the wildcard nothing else is in the language. -/
theorem Glob.letterFirst (h : Glob star pat word) (hstar : star ∉ word) :
    LetterFirst star pat word := by
  induction h with
  | nil => exact .nil
  | letter c _ ih => exact (ih (fun h => hstar (List.mem_cons_of_mem c h))).letter c
  | @skip pat word _ ih =>
    cases word with
    | nil => exact (ih hstar).last
    | cons c word =>
      have hc : c ≠ star := fun h => hstar (h ▸ List.mem_cons_self)
      exact .run hc (List.suffix_refl _) (ih hstar)
  | @eat pat word c _ ih =>
    have hc : c ≠ star := fun h => hstar (h ▸ List.mem_cons_self)
    have hword : star ∉ word := fun h => hstar (List.mem_cons_of_mem c h)
    cases ih hword with
    | letter => exact absurd List.mem_cons_self hword
    | last hpat => exact .run hc (List.nil_suffix) hpat
    | run _ hrest hpat => exact .run hc (hrest.trans (List.suffix_cons c _)) hpat

theorem letterFirst_nil_iff : LetterFirst star pat [] ↔ ∀ c ∈ pat, c = star := by
  induction pat with
  | nil => exact iff_of_true .nil (fun c hc => absurd hc List.not_mem_nil)
  | cons c pat ih =>
    rw [List.forall_mem_cons, ← ih]
    constructor
    · intro h
      cases h with
      | last hpat => exact ⟨rfl, hpat⟩
    · rintro ⟨rfl, hpat⟩
      exact hpat.last

theorem LetterFirst.behind (h : LetterFirst star (star :: pat) word) :
    ∃ rest, rest <:+ word ∧ LetterFirst star pat rest := by
  cases h with
  | letter _ h => exact ⟨_, List.suffix_cons star _, h⟩
  | last h => exact ⟨[], List.suffix_refl _, h⟩
  | run _ hrest h => exact ⟨_, hrest, h⟩

/-- Letters that were read one by one are not behind in any other reading from there on. -/
theorem LetterFirst.overtaken {seg rest : List α} (h : LetterFirst star (seg ++ pat) rest)
    (hrest : rest <:+ seg ++ word) : ∃ w, w <:+ word ∧ LetterFirst star pat w := by
  induction seg generalizing rest with
  | nil => exact ⟨rest, hrest, h⟩
  | cons c seg ih =>
    rcases List.suffix_cons_iff.mp hrest with rfl | hlater
    · cases h with
      | letter _ h => exact ih h (List.suffix_refl _)
      | run hc => exact absurd rfl hc
    · cases h with
      | letter _ h => exact ih h ((List.suffix_cons c _).trans hlater)
      | last h => exact ih h List.nil_suffix
      | run _ hfrom h => exact ih h (hfrom.trans hlater)

end

end TruellmEngine.Lib
