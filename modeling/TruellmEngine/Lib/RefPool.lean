/-
  A pool of `n` numbered resources with reference counts and a free list.

  `Ledger n refs free uses` says that the pool is in order for a given count of uses: the
  reference count of each resource is its number of uses, and the free list holds exactly
  the unused resources, each once. The rules say what taking a free resource, dropping a
  use and adding uses of resources in use do to the count; what the uses are (entries of
  tables, locals of a function) is the client's matter.
-/
import Mathlib.Data.List.Basic
import Mathlib.Data.List.Count
import Mathlib.Data.List.Nodup
import Mathlib.Logic.Function.Basic

namespace TruellmEngine.Lib

structure Ledger (n : Nat) (refs : Nat → Int) (free : List Nat) (uses : Nat → Nat) : Prop where
  refs : ∀ b, refs b = uses b
  free : ∀ b, free.count b = if b < n ∧ uses b = 0 then 1 else 0
  range : ∀ b, n ≤ b → uses b = 0

variable {n : Nat} {refs : Nat → Int} {free : List Nat} {uses uses' : Nat → Nat}

theorem Ledger.congr (h : Ledger n refs free uses) (he : ∀ b, uses b = uses' b) :
    Ledger n refs free uses' := by
  have hfun : uses = uses' := funext he
  exact hfun ▸ h

theorem ledger_range (n : Nat) : Ledger n (fun _ => 0) (List.range n) fun _ => 0 := by
  refine ⟨fun _ => rfl, ?_, fun _ _ => rfl⟩
  intro b
  by_cases hb : b < n
  · rw [if_pos ⟨hb, rfl⟩]
    exact List.count_eq_one_of_mem List.nodup_range (List.mem_range.mpr hb)
  · rw [if_neg fun h => hb h.1]
    exact List.count_eq_zero_of_not_mem fun h => hb (List.mem_range.mp h)

/-- A free resource is unused and in the pool. -/
theorem Ledger.of_free (h : Ledger n refs free uses) {b : Nat} (hb : b ∈ free) :
    b < n ∧ uses b = 0 := by
  have hpos : 0 < free.count b := List.count_pos_iff.mpr hb
  have hf := h.free b
  by_contra hno
  rw [if_neg hno] at hf
  omega

theorem Ledger.nodup (h : Ledger n refs free uses) : free.Nodup := by
  rw [List.nodup_iff_count_le_one]
  intro b
  rw [h.free b]
  split_ifs <;> omega

theorem count_singleton_other {b id : Nat} (h : b ≠ id) : [id].count b = 0 := by
  simp [h.symm]

/-- Taking the resource on top of the free list. -/
theorem Ledger.take {id : Nat} {rest : List Nat} (h : Ledger n refs (id :: rest) uses) :
    Ledger n (Function.update refs id 1) rest fun b => uses b + [id].count b := by
  obtain ⟨hid, hzero⟩ := h.of_free List.mem_cons_self
  refine ⟨?_, ?_, ?_⟩
  · intro b
    by_cases hb : b = id
    · subst hb
      rw [Function.update_self, List.count_singleton_self, hzero]
      rfl
    · rw [Function.update_of_ne hb, count_singleton_other hb]
      exact h.refs b
  · intro b
    have hf := h.free b
    by_cases hb : b = id
    · subst hb
      rw [if_pos ⟨hid, hzero⟩, List.count_cons_self] at hf
      rw [List.count_singleton_self, if_neg (by omega)]
      omega
    · rw [List.count_cons_of_ne (Ne.symm hb)] at hf
      rw [count_singleton_other hb]
      exact hf
  · intro b hb
    have hne : b ≠ id := by omega
    rw [count_singleton_other hne]
    exact h.range b hb

/-- One use less is counted. -/
theorem Ledger.refs_drop {id : Nat} (h : Ledger n refs free fun b => uses b + [id].count b) :
    ∀ b, Function.update refs id (refs id - 1) b = uses b := by
  intro b
  have hr := h.refs b
  by_cases hb : b = id
  · subst hb
    rw [List.count_singleton_self] at hr
    rw [Function.update_self]
    omega
  · rw [count_singleton_other hb] at hr
    rw [Function.update_of_ne hb]
    exact hr

/-- Dropping a use that is not the last one. -/
theorem Ledger.drop {id : Nat} (h : Ledger n refs free fun b => uses b + [id].count b)
    (hmore : ¬ refs id - 1 ≤ 0) :
    Ledger n (Function.update refs id (refs id - 1)) free uses := by
  have hid := h.refs id
  rw [List.count_singleton_self] at hid
  refine ⟨h.refs_drop, ?_, ?_⟩
  · intro b
    have hf := h.free b
    by_cases hb : b = id
    · subst hb
      rw [if_neg (by rw [List.count_singleton_self]; omega)] at hf
      rw [hf, if_neg (by omega)]
    · rw [count_singleton_other hb] at hf
      exact hf
  · intro b hb
    have hr := h.range b hb
    omega

/-- Dropping the last use. -/
theorem Ledger.dropLast {id : Nat} (h : Ledger n refs free fun b => uses b + [id].count b)
    (hlast : refs id - 1 ≤ 0) :
    Ledger n (Function.update refs id 0) (id :: free) uses := by
  have hid := h.refs id
  rw [List.count_singleton_self] at hid
  have hlt : id < n := by
    by_contra hge
    have hr := h.range id (by omega)
    rw [List.count_singleton_self] at hr
    omega
  have hzero : refs id - 1 = 0 := by omega
  refine ⟨hzero ▸ h.refs_drop, ?_, ?_⟩
  · intro b
    have hf := h.free b
    by_cases hb : b = id
    · subst hb
      rw [if_neg (by rw [List.count_singleton_self]; omega)] at hf
      rw [List.count_cons_self, hf, if_pos ⟨hlt, by omega⟩]
    · rw [count_singleton_other hb] at hf
      rw [List.count_cons_of_ne (Ne.symm hb)]
      exact hf
  · intro b hb
    have hr := h.range b hb
    omega

/-- Adding a use of each resource of a list, all of them in use. -/
theorem Ledger.share {ids : List Nat} (h : Ledger n refs free uses)
    (hused : ∀ b ∈ ids, 0 < uses b) :
    Ledger n (ids.foldl (fun rc bid => Function.update rc bid (rc bid + 1)) refs) free
      fun b => uses b + ids.count b := by
  induction ids generalizing refs uses with
  | nil => exact h
  | cons id ids ih =>
    have hid : 0 < uses id := hused id List.mem_cons_self
    have hone : Ledger n (Function.update refs id (refs id + 1)) free
        fun b => uses b + [id].count b := by
      refine ⟨?_, ?_, ?_⟩
      · intro b
        by_cases hb : b = id
        · subst hb
          rw [Function.update_self, List.count_singleton_self, h.refs b]
          rfl
        · rw [Function.update_of_ne hb, count_singleton_other hb]
          exact h.refs b
      · intro b
        rw [h.free b]
        by_cases hb : b = id
        · subst hb
          rw [if_neg (by omega), if_neg (by omega)]
        · rw [count_singleton_other hb]
          rfl
      · intro b hb
        have hr := h.range b hb
        have hne : b ≠ id := by
          rintro rfl
          omega
        rw [count_singleton_other hne]
        exact hr
    rw [List.foldl_cons]
    refine (ih hone ?_).congr ?_
    · intro b hb
      have hpos := hused b (List.mem_cons_of_mem id hb)
      omega
    · intro b
      have hsplit : (id :: ids).count b = [id].count b + ids.count b  := by
        rw [← List.count_append]
        rfl
      omega

end TruellmEngine.Lib
