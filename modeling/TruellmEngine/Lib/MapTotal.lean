/-
  The sum of a measure over the values of a finite map, and how an insertion or an erasure
  moves it. With "occurrences of `b` in a list" as the measure this counts how often a
  table of lists refers to `b`.
-/
import Mathlib.Data.List.AList
import Mathlib.Algebra.BigOperators.Group.List.Basic
import Mathlib.Algebra.Ring.Nat

namespace TruellmEngine.Lib

variable {κ β : Type*}

/-- The sum of `f` over the values of the map. -/
def total (f : β → Nat) (m : AList fun _ : κ => β) : Nat :=
  (m.entries.map fun e => f e.2).sum

variable [DecidableEq κ]

theorem sum_kerase (f : β → Nat) {k : κ} {v : β} {l : List (Sigma fun _ : κ => β)}
    (h : l.dlookup k = some v) :
    ((l.kerase k).map fun e => f e.2).sum + f v = (l.map fun e => f e.2).sum := by
  induction l with
  | nil => cases h
  | cons e l ih =>
    by_cases hk : k = e.1
    · rw [List.kerase_cons_eq hk, List.map_cons, List.sum_cons]
      obtain ⟨k', u⟩ := e
      subst hk
      rw [List.dlookup_cons_eq] at h
      cases h
      exact Nat.add_comm _ _
    · rw [List.kerase_cons_ne hk, List.map_cons, List.map_cons, List.sum_cons, List.sum_cons]
      rw [List.dlookup_cons_ne _ _ hk] at h
      have := ih h
      omega

theorem total_erase (f : β → Nat) {k : κ} {v : β} {m : AList fun _ : κ => β}
    (h : m.lookup k = some v) : total f (m.erase k) + f v = total f m :=
  sum_kerase f h

theorem total_insert_new (f : β → Nat) {k : κ} (v : β) {m : AList fun _ : κ => β}
    (h : m.lookup k = none) : total f (m.insert k v) = total f m + f v := by
  unfold total
  rw [AList.entries_insert_of_notMem (AList.lookup_eq_none.mp h), List.map_cons, List.sum_cons]
  exact Nat.add_comm _ _

theorem total_insert (f : β → Nat) {k : κ} {u : β} (v : β) {m : AList fun _ : κ => β}
    (h : m.lookup k = some u) : total f (m.insert k v) + f u = total f m + f v := by
  have he := total_erase f h
  have hi : total f (m.insert k v) = f v + total f (m.erase k) := by
    unfold total
    rw [AList.entries_insert, List.map_cons, List.sum_cons]
    rfl
  omega

theorem le_total (f : β → Nat) {k : κ} {v : β} {m : AList fun _ : κ => β}
    (h : m.lookup k = some v) : f v ≤ total f m := by
  have he := total_erase f h
  omega

theorem total_eq_zero (f : β → Nat) {m : AList fun _ : κ => β} (h : ∀ k, m.lookup k = none) :
    total f m = 0 := by
  have hempty : m.entries = [] := by
    apply List.eq_nil_of_map_eq_nil
    exact List.eq_nil_iff_forall_not_mem.mpr fun k hk => AList.lookup_eq_none.mp (h k) hk
  unfold total
  rw [hempty]
  rfl

/-- A map with a single entry. -/
theorem total_single (f : β → Nat) {k : κ} {v : β} {m : AList fun _ : κ => β}
    (h : m.lookup k = some v) (hother : ∀ k', k' ≠ k → m.lookup k' = none) :
    total f m = f v := by
  have he := total_erase f h
  have hzero : total f (m.erase k) = 0 := by
    apply total_eq_zero
    intro k'
    by_cases hk : k' = k
    · rw [hk, AList.lookup_erase]
    · rw [AList.lookup_erase_ne hk, hother k' hk]
  omega

end TruellmEngine.Lib
