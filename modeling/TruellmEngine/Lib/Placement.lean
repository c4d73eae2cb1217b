/-
  Families of runs of cells, all of one length, laid out in a region `[0, size)`.

  * `Placed start len size`: the runs lie inside the region and do not meet. A run that is
    never addressed has no start.
  * `placed_of_index`: runs placed by an index, an injective numbering below `n`.
  * `Placed.card_mul_le`: a region is no smaller than what is placed in it.
  * `digits_lt`, `digits_inj`: the numbers with a digit below `n` behind a leading part, the
    step from which row-major numberings are built.
-/
import Mathlib.Data.Fintype.Card
import Mathlib.Data.Fintype.Prod
import Mathlib.Tactic.Linarith

namespace TruellmEngine.Lib

variable {ι : Type*}

/-- The runs `[start i, start i + len)` lie in `[0, size)` and are pairwise disjoint. -/
structure Placed (start : ι → Option Int) (len size : Nat) : Prop where
  inside : ∀ i a, start i = some a → 0 ≤ a ∧ a + len ≤ size
  apart : ∀ i j a b, i ≠ j → start i = some a → start j = some b → a + len ≤ b ∨ b + len ≤ a

/-- Runs at `len` times an injective index below `n`. -/
theorem placed_of_index {start : ι → Option Int} {len size n : Nat} {index : ι → Nat}
    (hstart : ∀ i, start i = some ((len * index i : Nat) : Int))
    (hinj : Function.Injective index) (hlt : ∀ i, index i < n) (hsize : len * n ≤ size) :
    Placed start len size := by
  have hnext : ∀ k m : Nat, k < m → len * k + len ≤ len * m := by
    intro k m hk
    have hmul : len * (k + 1) ≤ len * m := Nat.mul_le_mul_left len hk
    rw [Nat.mul_add, Nat.mul_one] at hmul
    exact hmul
  constructor
  · intro i a ha
    rw [hstart i] at ha
    cases ha
    have hend := hnext (index i) n (hlt i)
    omega
  · intro i j a b hij ha hb
    rw [hstart i] at ha
    rw [hstart j] at hb
    cases ha
    cases hb
    rcases Nat.lt_or_gt_of_ne (fun h => hij (hinj h)) with h | h
    · left
      have hend := hnext _ _ h
      omega
    · right
      have hend := hnext _ _ h
      omega

/-- A family of runs that are all addressed fills `len` cells of the region each. -/
theorem Placed.card_mul_le [Fintype ι] {start : ι → Int} {len size : Nat}
    (h : Placed (fun i => some (start i)) len size) : Fintype.card ι * len ≤ size := by
  have hcell : ∀ (i : ι) (k : Fin len), (start i + k).toNat < size := by
    intro i k
    have hin := h.inside i _ rfl
    have hk := k.isLt
    omega
  let cell : ι × Fin len → Fin size := fun x => ⟨(start x.1 + x.2).toNat, hcell x.1 x.2⟩
  have hinj : Function.Injective cell := by
    rintro ⟨i, k⟩ ⟨j, m⟩ heq
    have hval : (start i + k).toNat = (start j + m).toNat := congrArg Fin.val heq
    have hi := h.inside i _ rfl
    have hj := h.inside j _ rfl
    have hk := k.isLt
    have hm := m.isLt
    have hij : i = j := by
      by_contra hne
      rcases h.apart i j _ _ hne rfl rfl with hap | hap
      · omega
      · omega
    subst hij
    have hkm : k = m := by
      apply Fin.ext
      omega
    rw [hkm]
  have hcard := Fintype.card_le_of_injective cell hinj
  rwa [Fintype.card_prod, Fintype.card_fin, Fintype.card_fin] at hcard

/-! ## Digits -/

theorem digits_lt {a b m n : Nat} (ha : a < m) (hb : b < n) : a * n + b < m * n := by
  have hmul : (a + 1) * n ≤ m * n := Nat.mul_le_mul_right n ha
  rw [Nat.add_mul, Nat.one_mul] at hmul
  omega

/-- The greatest number of digits below `m` and `n`. -/
theorem digits_last {m n : Nat} (hm : 0 < m) (hn : 0 < n) :
    (m - 1) * n + (n - 1) = m * n - 1 := by
  have hle : n ≤ m * n := Nat.le_mul_of_pos_left n hm
  rw [Nat.sub_mul, Nat.one_mul]
  omega

theorem digits_inj {a a' b b' n : Nat} (hb : b < n) (hb' : b' < n)
    (h : a * n + b = a' * n + b') : a = a' ∧ b = b' := by
  have hmod : b = b' := by
    have hrem := congrArg (· % n) h
    simpa [Nat.mod_eq_of_lt hb, Nat.mod_eq_of_lt hb'] using hrem
  subst hmod
  refine ⟨?_, rfl⟩
  exact Nat.eq_of_mul_eq_mul_right (Nat.zero_lt_of_lt hb) (by omega)

end TruellmEngine.Lib
