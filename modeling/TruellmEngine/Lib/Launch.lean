/-
  Kernel launches over a memory, in every order of their stores.

  A thread is what it stores, or atomically adds, as a list of addresses with values. It loads
  nothing that the launch changes, so what it does is known before the launch. A `Schedule`
  puts the stores of all threads in some order; threads may be interleaved in any way.

  `launch_of_mem`, `launch_of_not_mem`: what a launch leaves at an address to which all stores
  carry one value, and at one to which nothing is stored. `launchAdds_eq`: the sum that a
  launch of atomic additions leaves, in every order.
-/
import TruellmEngine.Lib.Stores
import Mathlib.Algebra.BigOperators.Group.List.Basic
import Mathlib.Algebra.BigOperators.Group.Finset.Basic

namespace TruellmEngine.Lib

structure Schedule (α : Type*) where
  order : List α → List α
  perm : ∀ l, (order l).Perm l

/-- Thread after thread. -/
def Schedule.sequential (α : Type*) : Schedule α where
  order l := l
  perm := List.Perm.refl

/-- The threads of a grid that covers `total` elements with blocks of `threads`. -/
def gridThreads (total threads : Nat) : Nat := (total + threads - 1) / threads * threads

theorem le_gridThreads (total threads : Nat) (h : 0 < threads) :
    total ≤ gridThreads total threads := by
  have hdiv := Nat.div_add_mod (total + threads - 1) threads
  have hmod := Nat.mod_lt (total + threads - 1) h
  unfold gridThreads
  rw [Nat.mul_comm]
  omega

variable {κ α : Type*} [DecidableEq κ]

def launch (s : Schedule (κ × α)) (n : Nat) (thread : Nat → List (κ × α)) (m : κ → α) : κ → α :=
  storeAll (s.order ((List.range n).flatMap thread)) m

section

variable (s : Schedule (κ × α)) {n : Nat} {thread : Nat → List (κ × α)} (m : κ → α) {a : κ}

omit [DecidableEq κ] in
theorem mem_order {p : κ × α} :
    p ∈ s.order ((List.range n).flatMap thread) ↔ ∃ i < n, p ∈ thread i := by
  rw [(s.perm _).mem_iff, List.mem_flatMap]
  simp only [List.mem_range]

theorem launch_of_mem {v : α} {i : Nat} (hi : i < n) (h : (a, v) ∈ thread i)
    (hone : ∀ j < n, ∀ w, (a, w) ∈ thread j → w = v) : launch s n thread m a = v := by
  refine storeAll_of_mem m ((mem_order s).mpr ⟨i, hi, h⟩) fun w hw => ?_
  obtain ⟨j, hj, hmem⟩ := (mem_order s).mp hw
  exact hone j hj w hmem

theorem launch_of_not_mem (h : ∀ i < n, ∀ w, (a, w) ∉ thread i) : launch s n thread m a = m a := by
  refine storeAll_of_not_mem m fun w hw => ?_
  obtain ⟨i, hi, hmem⟩ := (mem_order s).mp hw
  exact h i hi w hmem

end

/-! ## Atomic additions -/

variable [AddCommMonoid α]

/-- `atomicAdd` at each address of the list. -/
def afterAdds (adds : List (κ × α)) (m : κ → α) : κ → α :=
  adds.foldl (fun m p => Function.update m p.1 (m p.1 + p.2)) m

/-- What the list adds at an address. -/
def added (adds : List (κ × α)) (a : κ) : α :=
  (adds.map fun p => if p.1 = a then p.2 else 0).sum

def launchAdds (s : Schedule (κ × α)) (n : Nat) (thread : Nat → List (κ × α)) (m : κ → α) :
    κ → α :=
  afterAdds (s.order ((List.range n).flatMap thread)) m

theorem afterAdds_eq (adds : List (κ × α)) (m : κ → α) (a : κ) :
    afterAdds adds m a = m a + added adds a := by
  unfold afterAdds
  induction adds generalizing m with
  | nil => exact (add_zero (m a)).symm
  | cons p adds ih =>
    unfold added at ih ⊢
    rw [List.foldl_cons, ih, List.map_cons, List.sum_cons, ← add_assoc]
    congr 1
    by_cases h : p.1 = a
    · rw [if_pos h, ← h, Function.update_self]
    · rw [if_neg h, Function.update_of_ne (Ne.symm h), add_zero]

theorem added_flatMap (thread : Nat → List (κ × α)) (n : Nat) (a : κ) :
    added ((List.range n).flatMap thread) a = ∑ i ∈ Finset.range n, added (thread i) a := by
  induction n with
  | zero => rfl
  | succ n ih =>
    unfold added at ih ⊢
    rw [List.range_succ, List.flatMap_append, List.flatMap_singleton, List.map_append,
      List.sum_append, ih, Finset.sum_range_succ]

/-- A thread that adds in a loop, at a different address in each turn. -/
theorem added_range {n : Nat} (address : Nat → κ) (v : Nat → α) {d : Nat} (hd : d < n)
    (hinj : ∀ d' < n, address d' = address d → d' = d) :
    added ((List.range n).map fun d => (address d, v d)) (address d) = v d := by
  have hterms : added ((List.range n).map fun d => (address d, v d)) (address d) =
      ∑ d' ∈ Finset.range n, if address d' = address d then v d' else 0 := by
    unfold added
    rw [List.map_map]
    rfl
  rw [hterms, Finset.sum_eq_single d]
  · exact if_pos rfl
  · intro d' hd' hne
    exact if_neg fun h => hne (hinj d' (Finset.mem_range.mp hd') h)
  · intro h
    exact absurd (Finset.mem_range.mpr hd) h

/-- Such a thread adds nothing anywhere else. -/
theorem added_of_not_mem {adds : List (κ × α)} {a : κ} (h : ∀ v, (a, v) ∉ adds) :
    added adds a = 0 := by
  unfold added
  refine List.sum_eq_zero fun v hv => ?_
  obtain ⟨p, hp, rfl⟩ := List.mem_map.mp hv
  exact if_neg fun heq => h p.2 (by rw [← heq]; exact hp)

/-- Each thread contributes what it adds, whatever the order. -/
theorem launchAdds_eq (s : Schedule (κ × α)) (n : Nat) (thread : Nat → List (κ × α))
    (m : κ → α) (a : κ) :
    launchAdds s n thread m a = m a + ∑ i ∈ Finset.range n, added (thread i) a := by
  have hperm : added (s.order ((List.range n).flatMap thread)) a =
      added ((List.range n).flatMap thread) a :=
    ((s.perm _).map _).sum_eq
  unfold launchAdds
  rw [afterAdds_eq, hperm, added_flatMap]

end TruellmEngine.Lib
