/-
  Records in a memory: a list of cells that lies at an address.

  `holdsAt_append`: a record of two parts is the parts one behind the other. `launch_holdsAt`:
  where each thread of a launch stores a record of its own, no longer than the distance to the
  next one, all records are there afterwards.
-/
import TruellmEngine.Lib.Launch
import TruellmEngine.Lib.Placement

namespace TruellmEngine.Lib

variable {α : Type*}

/-- The cells of `l` lie at `base` and behind. -/
def HoldsAt (m : Nat → α) (base : Nat) (l : List α) : Prop :=
  ∀ k (h : k < l.length), m (base + k) = l[k]

variable {m : Nat → α} {base : Nat}

theorem holdsAt_append {l l' : List α} :
    HoldsAt m base (l ++ l') ↔ HoldsAt m base l ∧ HoldsAt m (base + l.length) l' := by
  constructor
  · intro h
    refine ⟨fun k hk => ?_, fun k hk => ?_⟩
    · rw [h k (by rw [List.length_append]; omega), List.getElem_append_left hk]
    · rw [Nat.add_assoc, h (l.length + k) (by rw [List.length_append]; omega),
        List.getElem_append_right (Nat.le_add_right _ _)]
      simp only [Nat.add_sub_cancel_left]
  · intro h k hk
    rw [List.length_append] at hk
    by_cases hleft : k < l.length
    · rw [List.getElem_append_left hleft]
      exact h.1 k hleft
    · rw [List.getElem_append_right (Nat.le_of_not_lt hleft)]
      have hright := h.2 (k - l.length) (by omega)
      rwa [Nat.add_assoc, Nat.add_sub_cancel' (Nat.le_of_not_lt hleft)] at hright

theorem HoldsAt.map_range {n : Nat} {f : Nat → α} (h : HoldsAt m base ((List.range n).map f))
    {k : Nat} (hk : k < n) : m (base + k) = f k := by
  rw [h k (by rwa [List.length_map, List.length_range]), List.getElem_map, List.getElem_range]

/-- The stores that put a record at an address. -/
def recordStores (base : Nat) (l : List α) : List (Nat × α) :=
  l.zipIdx.map fun p => (base + p.2, p.1)

theorem mem_recordStores {l : List α} {a : Nat} {v : α} :
    (a, v) ∈ recordStores base l ↔ ∃ k, ∃ h : k < l.length, a = base + k ∧ v = l[k] := by
  unfold recordStores
  rw [List.mem_map]
  constructor
  · intro h
    obtain ⟨⟨w, k⟩, hmem, heq⟩ := h
    obtain ⟨hk, hw⟩ := List.mem_zipIdx' hmem
    rw [Prod.mk.injEq] at heq
    exact ⟨k, hk, heq.1.symm, heq.2.symm.trans hw⟩
  · intro h
    obtain ⟨k, hk, rfl, rfl⟩ := h
    exact ⟨(l[k], k), List.mk_mem_zipIdx_iff_getElem?.mpr (List.getElem?_eq_getElem hk), rfl⟩

/-- Each thread of `n` stores its record at its multiple of `stride`; there may be further
    threads that store nothing. -/
theorem launch_holdsAt (s : Schedule (Nat × α)) (record : Nat → List α)
    {n threads stride : Nat} {thread : Nat → List (Nat × α)} (hthreads : n ≤ threads)
    (hthread : ∀ i < n, thread i = recordStores (i * stride) (record i))
    (hidle : ∀ i, n ≤ i → thread i = [])
    (hfits : ∀ i < n, (record i).length ≤ stride) {i : Nat} (hi : i < n) :
    HoldsAt (launch s threads thread m) (i * stride) (record i) := by
  intro k hk
  refine launch_of_mem s m (Nat.lt_of_lt_of_le hi hthreads) ?_ ?_
  · rw [hthread i hi]
    exact mem_recordStores.mpr ⟨k, hk, rfl, rfl⟩
  · intro j _ w hw
    by_cases hj : j < n
    · rw [hthread j hj] at hw
      obtain ⟨k', hk', heq, rfl⟩ := mem_recordStores.mp hw
      obtain ⟨rfl, rfl⟩ := digits_inj (Nat.lt_of_lt_of_le hk (hfits i hi))
        (Nat.lt_of_lt_of_le hk' (hfits j hj)) heq
      rfl
    · rw [hidle j (Nat.le_of_not_lt hj)] at hw
      cases hw

end TruellmEngine.Lib
