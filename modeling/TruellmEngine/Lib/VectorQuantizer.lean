/-
  Vector quantisation: the entry of a codebook that is nearest to a vector, and Lloyd's step,
  which puts each entry at the mean of the samples nearest to it.

  `scanNearest_spec`: a scan that keeps the best entry so far, and replaces it by a strictly
  nearer one only, ends at the first entry of least distance. `distortion_recentred_le`: after
  a Lloyd step the samples are, in total, no further from their nearest entries.
-/
import Mathlib.Algebra.BigOperators.Field
import Mathlib.Algebra.Order.BigOperators.Group.Finset
import Mathlib.Algebra.Order.Field.Basic
import Mathlib.Tactic.FieldSimp
import Mathlib.Tactic.Linarith
import Mathlib.Tactic.Positivity
import Mathlib.Tactic.Ring

namespace TruellmEngine.Lib

/-! ## The nearest entry -/

section

variable {α : Type*} [LinearOrder α]

/-- Entry `i` is the first of the `n` entries of least distance. -/
structure FirstNearest (dist : Nat → α) (n i : Nat) : Prop where
  lt : i < n
  least : ∀ c < n, dist i ≤ dist c
  first : ∀ c < i, dist i < dist c

/-- The best distance so far, `far` at first, with its entry. -/
def scanNearest (dist : Nat → α) (far : α) (n : Nat) : α × Nat :=
  (List.range n).foldl (fun best c => if dist c < best.1 then (dist c, c) else best) (far, 0)

theorem scanNearest_succ (dist : Nat → α) (far : α) (n : Nat) :
    scanNearest dist far (n + 1) =
      if dist n < (scanNearest dist far n).1 then (dist n, n) else scanNearest dist far n := by
  unfold scanNearest
  rw [List.range_succ, List.foldl_append]
  rfl

theorem scanNearest_spec {dist : Nat → α} {far : α} {n : Nat} (hn : 0 < n)
    (hfar : dist 0 ≤ far) :
    (scanNearest dist far n).1 = dist (scanNearest dist far n).2 ∧
      FirstNearest dist n (scanNearest dist far n).2 := by
  induction n with
  | zero => omega
  | succ n ih =>
    rw [scanNearest_succ]
    rcases Nat.eq_zero_or_pos n with hzero | hpos
    · subst hzero
      have hone : FirstNearest dist 1 0 := by
        refine ⟨Nat.one_pos, fun c hc => ?_, fun c hc => ?_⟩
        · rw [Nat.lt_one_iff.mp hc]
        · exact absurd hc (Nat.not_lt_zero c)
      split
      · exact ⟨rfl, hone⟩
      · rename_i hnot
        exact ⟨le_antisymm (not_lt.mp hnot) hfar, hone⟩
    · obtain ⟨hbest, hnear⟩ := ih hpos
      rw [hbest]
      split
      · rename_i hcloser
        refine ⟨rfl, ⟨Nat.lt_succ_self n, fun c hc => ?_, fun c hc => ?_⟩⟩
        · rcases Nat.lt_succ_iff_lt_or_eq.mp hc with h | h
          · exact hcloser.le.trans (hnear.least c h)
          · rw [h]
        · exact hcloser.trans_le (hnear.least c hc)
      · rename_i hfarther
        refine ⟨hbest, ⟨Nat.lt_succ_of_lt hnear.lt, fun c hc => ?_, hnear.first⟩⟩
        rcases Nat.lt_succ_iff_lt_or_eq.mp hc with h | h
        · exact hnear.least c h
        · rw [h]
          exact not_lt.mp hfarther

end

/-! ## Squared distances -/

variable {ι δ R : Type*} [Field R]

def sqDist (D : Finset δ) (x y : δ → R) : R := ∑ d ∈ D, (x d - y d) ^ 2

theorem sqDist_congr {D : Finset δ} {x x' y y' : δ → R} (hx : ∀ d ∈ D, x d = x' d)
    (hy : ∀ d ∈ D, y d = y' d) : sqDist D x y = sqDist D x' y' :=
  Finset.sum_congr rfl fun d hd => by rw [hx d hd, hy d hd]

variable [LinearOrder R] [IsStrictOrderedRing R]

theorem sqDist_nonneg (D : Finset δ) (x y : δ → R) : 0 ≤ sqDist D x y :=
  Finset.sum_nonneg fun d _ => sq_nonneg (x d - y d)

theorem sqDist_eq_zero {D : Finset δ} {x y : δ → R} : sqDist D x y = 0 ↔ ∀ d ∈ D, x d = y d := by
  unfold sqDist
  rw [Finset.sum_eq_zero_iff_of_nonneg fun d _ => sq_nonneg (x d - y d)]
  simp only [sq_eq_zero_iff, sub_eq_zero]

/-- Vectors with all elements in `[-b, b]` are not far apart. -/
theorem sqDist_le {D : Finset δ} {x y : δ → R} {b : R} (hx : ∀ d ∈ D, |x d| ≤ b)
    (hy : ∀ d ∈ D, |y d| ≤ b) : sqDist D x y ≤ D.card * (2 * b) ^ 2 := by
  have hterm : ∀ d ∈ D, (x d - y d) ^ 2 ≤ (2 * b) ^ 2 := by
    intro d hd
    have hsub : |x d - y d| ≤ 2 * b := by
      have h := abs_sub (x d) (y d)
      linarith only [h, hx d hd, hy d hd]
    exact sq_le_sq' (abs_le.mp hsub).1 (abs_le.mp hsub).2
  unfold sqDist
  rw [← nsmul_eq_mul]
  exact Finset.sum_le_card_nsmul D _ _ hterm

/-- The entry nearest to an entry that is nearest to something is that entry itself. -/
theorem FirstNearest.again {D : Finset δ} {x : δ → R} {book : Nat → δ → R} {n i j : Nat}
    (hi : FirstNearest (fun c => sqDist D x (book c)) n i)
    (hj : FirstNearest (fun c => sqDist D (book i) (book c)) n j) : j = i := by
  have hself : sqDist D (book i) (book i) = 0 := sqDist_eq_zero.mpr fun d _ => rfl
  have hzero : sqDist D (book i) (book j) = 0 :=
    le_antisymm ((hj.least i hi.lt).trans hself.le) (sqDist_nonneg D _ _)
  have hsame : sqDist D x (book i) = sqDist D x (book j) :=
    sqDist_congr (fun d _ => rfl) (sqDist_eq_zero.mp hzero)
  rcases Nat.lt_trichotomy j i with h | h | h
  · exact absurd hsame (hi.first j h).ne
  · exact h
  · exact absurd (hzero.trans hself.symm) (hj.first i h).ne

/-! ## Means -/

def mean (S : Finset ι) (x : ι → R) : R := (∑ i ∈ S, x i) / S.card

theorem sum_sub_sq (S : Finset ι) (x : ι → R) (y : R) :
    ∑ i ∈ S, (x i - y) ^ 2 = ∑ i ∈ S, (x i - mean S x) ^ 2 + S.card * (mean S x - y) ^ 2 := by
  have hterm : ∀ i, (x i - y) ^ 2 = (x i - mean S x) ^ 2 +
      ((mean S x - y) ^ 2 + 2 * (mean S x - y) * (x i - mean S x)) := fun i => by ring
  have hsum : ∑ i ∈ S, (x i - mean S x) = 0 := by
    rw [Finset.sum_sub_distrib, Finset.sum_const, nsmul_eq_mul]
    rcases S.eq_empty_or_nonempty with hS | hS
    · rw [hS]
      simp
    · have hcard : (S.card : R) ≠ 0 := Nat.cast_ne_zero.mpr (Finset.card_ne_zero.mpr hS)
      unfold mean
      rw [mul_div_cancel₀ _ hcard, sub_self]
  rw [Finset.sum_congr rfl fun i _ => hterm i, Finset.sum_add_distrib, Finset.sum_add_distrib,
    Finset.sum_const, nsmul_eq_mul, ← Finset.mul_sum, hsum, mul_zero, add_zero]

/-- No point has less total squared distance than the mean. -/
theorem sum_sub_mean_sq_le (S : Finset ι) (x : ι → R) (y : R) :
    ∑ i ∈ S, (x i - mean S x) ^ 2 ≤ ∑ i ∈ S, (x i - y) ^ 2 := by
  rw [sum_sub_sq S x y]
  have h : 0 ≤ (S.card : R) * (mean S x - y) ^ 2 := by positivity
  linarith only [h]

theorem abs_mean_le {S : Finset ι} {x : ι → R} {b : R} (hS : S.Nonempty)
    (hx : ∀ i ∈ S, |x i| ≤ b) : |mean S x| ≤ b := by
  have hcard : (0 : R) < S.card := Nat.cast_pos.mpr (Finset.card_pos.mpr hS)
  have hsum : |∑ i ∈ S, x i| ≤ S.card * b := by
    refine (Finset.abs_sum_le_sum_abs x S).trans ?_
    rw [← nsmul_eq_mul]
    exact Finset.sum_le_card_nsmul S _ _ hx
  unfold mean
  rw [abs_div, abs_of_pos hcard, div_le_iff₀ hcard, mul_comm]
  exact hsum

/-! ## Lloyd's step -/

variable {κ : Type*} [DecidableEq κ] (S : Finset ι) (D : Finset δ) (x : ι → δ → R)

/-- The samples of a cluster. -/
def cluster (assign : ι → κ) (c : κ) : Finset ι := S.filter fun i => assign i = c

/-- Each entry with samples is at their mean, the others are where they were. -/
structure Recentred (assign : ι → κ) (book book' : κ → δ → R) : Prop where
  empty : ∀ c, cluster S assign c = ∅ → ∀ d ∈ D, book' c d = book c d
  mean : ∀ c, (cluster S assign c).Nonempty → ∀ d ∈ D,
    book' c d = mean (cluster S assign c) fun i => x i d

/-- The total squared distance from the samples to the entries that they are assigned to. -/
def assignedCost (assign : ι → κ) (book : κ → δ → R) : R :=
  ∑ i ∈ S, sqDist D (x i) (book (assign i))

/-- The total squared distance from the samples to their nearest entries. -/
def distortion (K : Finset κ) (hK : K.Nonempty) (book : κ → δ → R) : R :=
  ∑ i ∈ S, K.inf' hK fun c => sqDist D (x i) (book c)

omit [LinearOrder R] [IsStrictOrderedRing R] in
theorem assignedCost_eq (assign : ι → κ) (book : κ → δ → R) :
    assignedCost S D x assign book = ∑ c ∈ S.image assign, ∑ d ∈ D,
      ∑ i ∈ cluster S assign c, (x i d - book c d) ^ 2 := by
  have hfibres : assignedCost S D x assign book =
      ∑ c ∈ S.image assign, ∑ i ∈ cluster S assign c, sqDist D (x i) (book (assign i)) :=
    (Finset.sum_fiberwise_of_maps_to (fun i hi => Finset.mem_image_of_mem assign hi) _).symm
  rw [hfibres]
  refine Finset.sum_congr rfl fun c _ => ?_
  rw [Finset.sum_comm]
  refine Finset.sum_congr rfl fun i hi => ?_
  have hc : assign i = c := (Finset.mem_filter.mp hi).2
  rw [hc]
  rfl

variable {S D x} {K : Finset κ} {assign : ι → κ} {book book' : κ → δ → R}

theorem assignedCost_recentred_le (h : Recentred S D x assign book book') :
    assignedCost S D x assign book' ≤ assignedCost S D x assign book := by
  rw [assignedCost_eq, assignedCost_eq]
  refine Finset.sum_le_sum fun c hc => Finset.sum_le_sum fun d hd => ?_
  obtain ⟨i, hi, hic⟩ := Finset.mem_image.mp hc
  have hnonempty : (cluster S assign c).Nonempty := ⟨i, Finset.mem_filter.mpr ⟨hi, hic⟩⟩
  rw [h.mean c hnonempty d hd]
  exact sum_sub_mean_sq_le (cluster S assign c) (fun i => x i d) (book c d)

omit [DecidableEq κ] in
theorem distortion_le_assignedCost {hK : K.Nonempty} (hassign : ∀ i ∈ S, assign i ∈ K) :
    distortion S D x K hK book ≤ assignedCost S D x assign book :=
  Finset.sum_le_sum fun i hi => Finset.inf'_le _ (hassign i hi)

omit [DecidableEq κ] in
theorem assignedCost_le_distortion {hK : K.Nonempty}
    (hleast : ∀ i ∈ S, ∀ c ∈ K, sqDist D (x i) (book (assign i)) ≤ sqDist D (x i) (book c)) :
    assignedCost S D x assign book ≤ distortion S D x K hK book :=
  Finset.sum_le_sum fun i hi => Finset.le_inf' hK _ (hleast i hi)

/-- A Lloyd step, from an assignment to nearest entries, does not increase the distortion. -/
theorem distortion_recentred_le {hK : K.Nonempty} (hassign : ∀ i ∈ S, assign i ∈ K)
    (hleast : ∀ i ∈ S, ∀ c ∈ K, sqDist D (x i) (book (assign i)) ≤ sqDist D (x i) (book c))
    (h : Recentred S D x assign book book') :
    distortion S D x K hK book' ≤ distortion S D x K hK book :=
  calc distortion S D x K hK book'
      ≤ assignedCost S D x assign book' := distortion_le_assignedCost hassign
    _ ≤ assignedCost S D x assign book := assignedCost_recentred_le h
    _ ≤ distortion S D x K hK book := assignedCost_le_distortion hleast

end TruellmEngine.Lib
