/-
  Lists in the order of an integer key. The sort is stable: entries of one key stay in the
  order of the list.
-/
import Mathlib.Data.List.Basic

namespace TruellmEngine.Lib

variable {α : Type*} (key : α → Int)

def InOrder (entries : List α) : Prop := entries.Pairwise fun a b => key a ≤ key b

theorem inOrder_nil : InOrder key [] := List.Pairwise.nil

/-- The entries with a new one, sorted. -/
def addSorted (e : α) (entries : List α) : List α :=
  (entries ++ [e]).mergeSort fun a b => key a ≤ key b

theorem key_trans (a b c : α) (hab : decide (key a ≤ key b) = true)
    (hbc : decide (key b ≤ key c) = true) : decide (key a ≤ key c) = true := by
  simp only [decide_eq_true_eq] at hab hbc ⊢
  omega

theorem key_total (a b : α) : (decide (key a ≤ key b) || decide (key b ≤ key a)) = true := by
  simp only [Bool.or_eq_true, decide_eq_true_eq]
  omega

theorem addSorted_inOrder (e : α) (entries : List α) : InOrder key (addSorted key e entries) :=
  (List.pairwise_mergeSort (key_trans key) (key_total key) (entries ++ [e])).imp of_decide_eq_true

theorem mem_addSorted {e x : α} {entries : List α} :
    x ∈ addSorted key e entries ↔ x ∈ entries ∨ x = e := by
  unfold addSorted
  rw [List.mem_mergeSort, List.mem_append, List.mem_singleton]

/-- The entries in the order of the key, and those of one key in the order of the list. -/
structure Stable (entries sorted : List α) : Prop where
  inOrder : InOrder key sorted
  stable : ∀ k, (sorted.filter fun e => key e = k) = entries.filter fun e => key e = k

variable {key} {entries sorted : List α}

theorem stable_nil : Stable key [] [] := ⟨inOrder_nil key, fun _ => rfl⟩

theorem Stable.filter (h : Stable key entries sorted) (p : α → Bool) :
    Stable key (entries.filter p) (sorted.filter p) where
  inOrder := h.inOrder.filter p
  stable k := by
    rw [List.filter_filter, List.filter_filter]
    simp only [Bool.and_comm _ (p _)]
    rw [← List.filter_filter, ← List.filter_filter, h.stable k]

/-- The sort keeps the entries of one key as they are. -/
theorem filter_addSorted (e : α) (entries : List α) (k : Int) :
    ((addSorted key e entries).filter fun e => key e = k) =
      (entries ++ [e]).filter fun e => key e = k := by
  let le := fun a b : α => decide (key a ≤ key b)
  let own := fun a : α => decide (key a = k)
  have hsame : ((entries ++ [e]).filter own).Pairwise (fun a b => le a b = true) := by
    refine List.pairwise_of_forall_mem_list fun a ha b hb => ?_
    have hak : key a = k := of_decide_eq_true (List.mem_filter.mp ha).2
    have hbk : key b = k := of_decide_eq_true (List.mem_filter.mp hb).2
    exact decide_eq_true (by omega)
  have hsub : List.Sublist ((entries ++ [e]).filter own) ((entries ++ [e]).mergeSort le) :=
    List.sublist_mergeSort (key_trans key) (key_total key) hsame List.filter_sublist
  have hown := hsub.filter own
  rw [List.filter_filter] at hown
  simp only [Bool.and_self] at hown
  exact (hown.eq_of_length ((List.mergeSort_perm _ le).filter own).length_eq.symm).symm

theorem Stable.add (h : Stable key entries sorted) (e : α) :
    Stable key (entries ++ [e]) (addSorted key e sorted) where
  inOrder := addSorted_inOrder key e sorted
  stable k := by
    rw [filter_addSorted, List.filter_append, List.filter_append, h.stable k]

end TruellmEngine.Lib
