/-
  How often a text stands in another, and what it is to take a text out of one.

  Of texts that are `Apart`, none begins within the other: to take one out of a text leaves
  what there is of the other (`occurrences_takeOut_le`). What is `Unbordered` does not begin
  within itself: behind a text without it, the first is the one that was put there
  (`Unbordered.first`).
-/
import Mathlib.Data.List.Infix

namespace TruellmEngine.Lib

variable {α : Type*} {pat taken : List α}

/-- No end of the text but itself is a beginning of it. -/
def Unbordered (pat : List α) : Prop := ∀ t ∈ pat.tails, t <+: pat → t = [] ∨ t = pat

instance [DecidableEq α] {pat : List α} : Decidable (Unbordered pat) :=
  inferInstanceAs (Decidable (∀ t ∈ pat.tails, _))

/-- Behind a text without it, the first is the one that stands there. -/
theorem Unbordered.first (h : Unbordered pat) {front back x y : List α}
    (hfront : ¬ pat <:+: front) (heq : front ++ (pat ++ back) = x ++ (pat ++ y)) :
    front.length ≤ x.length := by
  rcases List.append_eq_append_iff.mp heq with ⟨w, rfl, -⟩ | ⟨w, rfl, hw⟩
  · rw [List.length_append]
    exact Nat.le_add_right _ _
  · rcases List.append_eq_append_iff.mp hw with ⟨v, rfl, -⟩ | ⟨v, hv, hback⟩
    · exact absurd ⟨x, v, List.append_assoc _ _ _⟩ hfront
    · -- the rest of the earlier one is a beginning of the later
      have hlength : v.length ≤ pat.length := by
        rw [hv, List.length_append]
        exact Nat.le_add_left _ _
      have hborder : v <+: pat :=
        List.prefix_of_prefix_length_le ⟨y, hback.symm⟩ (List.prefix_append pat back) hlength
      have hsame := congrArg List.length hv
      rw [List.length_append] at hsame
      rw [List.length_append]
      rcases h v ((List.mem_tails _ _).mpr ⟨w, hv.symm⟩) hborder with hnil | hall
      · rw [hnil, List.append_nil] at hv
        exact absurd ⟨x, [], by rw [hv, List.append_nil]⟩ hfront
      · rw [hall] at hsame
        omega

/-! ## Counts -/

variable [DecidableEq α]

/-- How often `pat` stands in a text. -/
def occurrences (pat : List α) : List α → Nat
  | [] => 0
  | c :: s => (if pat <+: c :: s then 1 else 0) + occurrences pat s

/-- Neither begins within the other, or within what goes on from the other. -/
def Apart (x y : List α) : Prop :=
  (∀ t ∈ x.tails, t ≠ [] → ¬ t <+: y ∧ ¬ y <+: t) ∧
    ∀ t ∈ y.tails, t ≠ [] → ¬ t <+: x ∧ ¬ x <+: t

instance {x y : List α} : Decidable (Apart x y) := inferInstanceAs (Decidable (_ ∧ _))

theorem occurrences_cons (pat : List α) (c : α) (s : List α) : occurrences pat (c :: s) =
    (if pat <+: c :: s then 1 else 0) + occurrences pat s := rfl

theorem occurrences_append_le (s t : List α) :
    occurrences pat s + occurrences pat t ≤ occurrences pat (s ++ t) := by
  induction s with
  | nil => exact (Nat.zero_add _).le
  | cons c s ih =>
    have hhead : (if pat <+: c :: s then 1 else 0) ≤ if pat <+: c :: s ++ t then 1 else 0 := by
      split
      · rename_i h
        rw [if_pos (h.trans (List.prefix_append _ _))]
      · exact Nat.zero_le _
    rw [List.cons_append] at hhead ⊢
    rw [occurrences_cons, occurrences_cons]
    omega

/-- Where no end of `pat` begins the second text, none stands across the two. -/
theorem occurrences_append {t : List α}
    (h : ∀ x y, pat = x ++ y → x ≠ [] → y ≠ [] → ¬ y <+: t) (s : List α) :
    occurrences pat (s ++ t) = occurrences pat s + occurrences pat t := by
  induction s with
  | nil => exact (Nat.zero_add _).symm
  | cons c s ih =>
    have hhead : pat <+: c :: (s ++ t) ↔ pat <+: c :: s := by
      constructor
      · intro hpat
        rcases List.prefix_or_prefix_of_prefix hpat (List.prefix_append (c :: s) t) with hs | hs
        · exact hs
        · obtain ⟨y, hy⟩ := hs
          by_cases hempty : y = []
          · rw [← hy, hempty, List.append_nil]
          · rw [← hy, ← List.cons_append] at hpat
            exact absurd ((List.prefix_append_right_inj _).mp hpat)
              (h _ y hy.symm (List.cons_ne_nil _ _) hempty)
      · exact fun hs => hs.trans (List.prefix_append _ _)
    rw [List.cons_append, occurrences_cons, occurrences_cons, ih, Nat.add_assoc]
    simp only [hhead]

theorem Apart.occurrences_behind (h : Apart pat taken) (s : List α) :
    occurrences pat (taken ++ s) = occurrences pat s := by
  suffices hends : ∀ t, t <:+ taken → occurrences pat (t ++ s) = occurrences pat s from
    hends taken (List.suffix_refl _)
  intro t ht
  induction t with
  | nil => rfl
  | cons c t ih =>
    have hhead : ¬ pat <+: c :: (t ++ s) := by
      intro hpat
      obtain ⟨hright, hleft⟩ := h.2 _ ((List.mem_tails _ _).mpr ht) (List.cons_ne_nil _ _)
      rcases List.prefix_or_prefix_of_prefix hpat (List.prefix_append (c :: t) s) with hs | hs
      · exact hleft hs
      · exact hright hs
    rw [List.cons_append, occurrences_cons, if_neg hhead, Nat.zero_add,
      ih ((List.suffix_cons c t).trans ht)]

/-- To take out what is apart from `pat` leaves each `pat`. -/
theorem occurrences_takeOut_le (h : Apart pat taken) (front back : List α) :
    occurrences pat (front ++ (taken ++ back)) ≤ occurrences pat (front ++ back) := by
  rw [occurrences_append, h.occurrences_behind]
  · exact occurrences_append_le front back
  · rintro x y hxy - hy hprefix
    obtain ⟨hright, hleft⟩ := h.1 y ((List.mem_tails _ _).mpr ⟨x, hxy.symm⟩) hy
    rcases List.prefix_or_prefix_of_prefix hprefix (List.prefix_append taken back) with hs | hs
    · exact hright hs
    · exact hleft hs

theorem occurrences_pos {s : List α} (hpat : pat ≠ []) (h : pat <+: s) :
    0 < occurrences pat s := by
  cases s with
  | nil => exact absurd (List.prefix_nil.mp h) hpat
  | cons c s =>
    rw [occurrences_cons, if_pos h]
    omega

end TruellmEngine.Lib
