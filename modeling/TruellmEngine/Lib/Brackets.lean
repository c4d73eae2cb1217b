/-
  Brackets in a text that has other characters too.

  `Nested`: there are as many closing as opening brackets, and nowhere more of them.
  `Enclosed`: the first bracket is closed by the last one. `Nested.enclosed`: a bracket around
  what is nested makes it so.
-/
import Mathlib.Data.List.Basic

namespace TruellmEngine.Lib

variable {α : Type*}

/-! ## Where a character is first, or last -/

/-- The stretches before the first `c` agree, and those behind it. -/
theorem front_unique {c : α} {x y s t : List α} (hx : c ∉ x) (hy : c ∉ y)
    (h : x ++ c :: s = y ++ c :: t) : x = y ∧ s = t := by
  rcases List.append_eq_append_iff.mp h with ⟨z, hsplit, hrest⟩ | ⟨z, hsplit, hrest⟩
  · cases z with
    | nil => exact ⟨by rw [hsplit, List.append_nil], (List.cons.inj hrest).2⟩
    | cons d z =>
      obtain ⟨rfl, -⟩ := List.cons.inj hrest
      exact absurd (hsplit ▸ List.mem_append_right _ List.mem_cons_self) hy
  · cases z with
    | nil => exact ⟨by rw [hsplit, List.append_nil], (List.cons.inj hrest).2.symm⟩
    | cons d z =>
      obtain ⟨rfl, -⟩ := List.cons.inj hrest
      exact absurd (hsplit ▸ List.mem_append_right _ List.mem_cons_self) hx

/-- A stretch that ends in `c` ends before a stretch without it. -/
theorem ends_before {c : α} {x s t u : List α} (hu : c ∉ u)
    (h : x ++ [c] ++ s = t ++ u) : ∃ rest, t = x ++ [c] ++ rest := by
  rcases List.append_eq_append_iff.mp h with ⟨rest, ht, -⟩ | ⟨rest, hsplit, hrest⟩
  · exact ⟨rest, ht⟩
  · rcases List.eq_nil_or_concat rest with rfl | ⟨rest, d, rfl⟩
    · exact ⟨[], by rw [hsplit, List.append_nil, List.append_nil]⟩
    · rw [List.concat_eq_append, ← List.append_assoc] at hsplit
      obtain ⟨-, hd⟩ := List.append_inj' hsplit rfl
      cases hd
      exact absurd (hrest ▸ List.mem_append_left _ (by simp)) hu

/-- A stretch without `c` stands before a `c` or behind it. -/
theorem before_or_behind {c : α} {x p s t u : List α} (hc : c ∉ p)
    (h : x ++ (p ++ s) = t ++ c :: u) :
    (∃ y, t = x ++ (p ++ y) ∧ s = y ++ c :: u) ∨ ∃ y, x = t ++ c :: y ∧ u = y ++ (p ++ s) := by
  rcases List.append_eq_append_iff.mp h with ⟨y, ht, hrest⟩ | ⟨y, hx, hrest⟩
  · rcases List.append_eq_append_iff.mp hrest with ⟨z, hy, hs⟩ | ⟨z, hp, hs⟩
    · exact .inl ⟨z, by rw [ht, hy], hs⟩
    · cases z with
      | nil =>
        rw [List.append_nil] at hp
        exact .inl ⟨[], by rw [ht, hp, List.append_nil], hs.symm⟩
      | cons d z =>
        obtain ⟨rfl, -⟩ := List.cons.inj hs
        exact absurd (hp ▸ List.mem_append_right _ List.mem_cons_self) hc
  · cases y with
    | nil =>
      cases p with
      | nil => exact .inl ⟨[], by simp [hx], by simpa using hrest.symm⟩
      | cons d p =>
        obtain ⟨rfl, -⟩ := List.cons.inj hrest
        exact absurd List.mem_cons_self hc
    | cons d y =>
      obtain ⟨rfl, hu⟩ := List.cons.inj hrest
      exact .inr ⟨y, hx, hu⟩

/-! ## Matching -/

variable [DecidableEq α] {l r : α} {s t : List α}

structure Nested (l r : α) (s : List α) : Prop where
  whole : s.count l = s.count r
  before : ∀ p, p <+: s → p.count r ≤ p.count l

structure Enclosed (l r : α) (s : List α) : Prop where
  whole : s.count l = s.count r
  before : ∀ p, p <+: s → p ≠ [] → p ≠ s → p.count r < p.count l

theorem nested_of_free (hl : l ∉ s) (hr : r ∉ s) : Nested l r s where
  whole := by rw [List.count_eq_zero_of_not_mem hl, List.count_eq_zero_of_not_mem hr]
  before p hp := by
    rw [List.count_eq_zero_of_not_mem fun h => hr (hp.subset h)]
    exact Nat.zero_le _

theorem Nested.append (hs : Nested l r s) (ht : Nested l r t) : Nested l r (s ++ t) where
  whole := by rw [List.count_append, List.count_append, hs.whole, ht.whole]
  before p hp := by
    obtain ⟨rest, hp⟩ := hp
    rcases List.append_eq_append_iff.mp hp with ⟨q, hs', -⟩ | ⟨q, rfl, hq⟩
    · exact hs.before p ⟨q, hs'.symm⟩
    · rw [List.count_append, List.count_append, hs.whole]
      exact Nat.add_le_add_left (ht.before q ⟨rest, hq.symm⟩) _

theorem Nested.enclosed (hlr : l ≠ r) (hs : Nested l r s) : Enclosed l r (l :: (s ++ [r])) where
  whole := by
    rw [List.count_cons_self, List.count_cons_of_ne hlr, List.count_append, List.count_append,
      List.count_singleton_self, List.count_singleton, beq_eq_false_iff_ne.mpr hlr.symm, hs.whole]
    rfl
  before p hp hne hp' := by
    rcases List.prefix_cons_iff.mp hp with rfl | ⟨q, rfl, hq⟩
    · exact absurd rfl hne
    · rcases List.prefix_concat_iff.mp hq with rfl | hq
      · exact absurd rfl hp'
      · rw [List.count_cons_self, List.count_cons_of_ne hlr]
        exact Nat.lt_succ_of_le (hs.before q hq)

theorem Enclosed.nested (hs : Enclosed l r s) : Nested l r s where
  whole := hs.whole
  before p hp := by
    by_cases hne : p = []
    · exact hne ▸ Nat.le_refl _
    · by_cases hp' : p = s
      · exact hp' ▸ Nat.le_of_eq hs.whole.symm
      · exact Nat.le_of_lt (hs.before p hp hne hp')

/-- What is enclosed ends in a bracket. -/
theorem Enclosed.end_eq_nil (h : Enclosed l r (s ++ t)) (hs : s ≠ []) (hl : l ∉ t) (hr : r ∉ t) :
    t = [] := by
  by_contra ht
  have hlt := h.before s (List.prefix_append s t) hs fun heq =>
    ht (List.self_eq_append_right.mp heq)
  have hwhole := h.whole
  rw [List.count_append, List.count_append, List.count_eq_zero_of_not_mem hl,
    List.count_eq_zero_of_not_mem hr] at hwhole
  omega

end TruellmEngine.Lib
