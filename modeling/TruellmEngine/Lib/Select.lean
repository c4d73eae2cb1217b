/-
  The elements of a list at the positions that are kept.
-/
import Mathlib.Algebra.Order.BigOperators.Group.List
import Mathlib.Data.Finset.Card
import Mathlib.Data.List.Basic
import Mathlib.Order.Interval.Finset.Nat

namespace TruellmEngine.Lib

variable {α : Type*}

def select : (Nat → Bool) → List α → List α
  | _, [] => []
  | keep, x :: l =>
    if keep 0 then x :: select (fun i => keep (i + 1)) l else select (fun i => keep (i + 1)) l

theorem select_cons (keep : Nat → Bool) (x : α) (l : List α) :
    select keep (x :: l) =
      if keep 0 then x :: select (fun i => keep (i + 1)) l else select (fun i => keep (i + 1)) l :=
  rfl

theorem select_sublist (keep : Nat → Bool) (l : List α) : (select keep l).Sublist l := by
  induction l generalizing keep with
  | nil => exact List.Sublist.refl []
  | cons x l ih =>
    rw [select_cons]
    split
    · exact (ih _).cons_cons x
    · exact (ih _).cons x

theorem head?_select {keep : Nat → Bool} (h : keep 0 = true) (l : List α) :
    (select keep l).head? = l.head? := by
  cases l with
  | nil => rfl
  | cons x l =>
    rw [select_cons, if_pos h]
    rfl

theorem select_congr {keep keep' : Nat → Bool} {l : List α}
    (h : ∀ i < l.length, keep i = keep' i) : select keep l = select keep' l := by
  induction l generalizing keep keep' with
  | nil => rfl
  | cons x l ih =>
    rw [select_cons, select_cons, h 0 (Nat.succ_pos _),
      ih fun i hi => h (i + 1) (Nat.succ_lt_succ hi)]

theorem select_all {keep : Nat → Bool} {l : List α} (h : ∀ i < l.length, keep i = true) :
    select keep l = l := by
  induction l generalizing keep with
  | nil => rfl
  | cons x l ih =>
    rw [select_cons, if_pos (h 0 (Nat.succ_pos _)), ih fun i hi => h (i + 1) (Nat.succ_lt_succ hi)]

theorem select_append (keep : Nat → Bool) (l l' : List α) :
    select keep (l ++ l') = select keep l ++ select (fun i => keep (l.length + i)) l' := by
  induction l generalizing keep with
  | nil =>
    simp only [List.nil_append, List.length_nil, Nat.zero_add]
    rfl
  | cons x l ih =>
    have hshift : (fun i => keep ((x :: l).length + i)) = fun i => keep (l.length + i + 1) := by
      funext i
      rw [List.length_cons, Nat.add_right_comm]
    rw [List.cons_append, hshift, select_cons, select_cons, ih]
    split
    · rfl
    · rfl

/-- A tail of which everything is kept is the tail of what is selected. -/
theorem drop_suffix_select {keep : Nat → Bool} {l : List α} {n : Nat}
    (h : ∀ i, n ≤ i → i < l.length → keep i = true) : l.drop n <:+ select keep l := by
  rcases Nat.lt_or_ge l.length n with hlt | hle
  · rw [List.drop_eq_nil_of_le hlt.le]
    exact List.nil_suffix
  · have htail : select (fun i => keep ((l.take n).length + i)) (l.drop n) = l.drop n := by
      refine select_all fun i hi => ?_
      rw [List.length_drop] at hi
      rw [List.length_take, Nat.min_eq_left hle]
      exact h (n + i) (Nat.le_add_right n i) (by omega)
    refine ⟨select keep (l.take n), ?_⟩
    conv_rhs => rw [← List.take_append_drop n l, select_append, htail]

theorem length_select (keep : Nat → Bool) (l : List α) :
    (select keep l).length = ((Finset.range l.length).filter fun i => keep i = true).card := by
  have hcount : ∀ (keep : Nat → Bool) (l : List α),
      (select keep l).length = (List.range l.length).countP keep := by
    intro keep l
    induction l generalizing keep with
    | nil => rfl
    | cons x l ih =>
      rw [List.length_cons, List.range_succ_eq_map, List.countP_cons, List.countP_map,
        select_cons]
      split
      · rw [List.length_cons, ih]
        rfl
      · rw [ih]
        rfl
  rw [hcount, List.countP_eq_length_filter]
  have hfilter : (List.range l.length).filter keep =
      (List.range l.length).filter fun i => decide (keep i = true) :=
    List.filter_congr fun i _ => Bool.decide_eq_true.symm
  rw [hfilter]
  rfl

end TruellmEngine.Lib
