/-
  The k-means clustering that makes the codebook (`codebook_init.cu`).

  Arithmetic is exact. The samples and the first codebook are finite `__half`s. The entries
  that an iteration makes are means of samples, so that they are within the same bounds
  (`codebookInitKmeans_bounded`) and no distance reaches `FLT_MAX`.

  `iteration_recentred` is Lloyd's step of `VectorQuantizer`; `codebookInitKmeans_lloyd` has
  it for each iteration, in every order of the stores and of the atomic additions.
-/
import TruellmEngine.Cuda.VqCache

namespace TruellmEngine.Cuda

open Lib

/-- The sizes of a clustering. -/
structure Clustering where
  nSamples : Nat
  codebookSize : Nat
  headDim : Nat
  headDim_lt : headDim < 2 ^ 31
  codebookSize_pos : 0 < codebookSize

/-- Orders for what the launches of one iteration store and add. -/
structure KmeansSchedule where
  assign : Schedule (Nat × Nat)
  sums : Schedule (Nat × ℚ)
  counts : Schedule (Nat × Nat)
  normalise : Schedule (Nat × ℚ)

namespace Clustering

variable (g : Clustering) (data : Nat → Half)

/-! ## The kernels -/

/-- `kmeans_assign_kernel`. -/
def kmeansAssignKernel (book : Nat → ℚ) (i : Nat) : List (Nat × Nat) :=
  if g.nSamples ≤ i then []
  else
    [(i, bestIdx g.headDim g.codebookSize book fun d => (data (i * g.headDim + d)).val)]

/-- The additions of `kmeans_update_kernel` to the counts. -/
def kmeansCountKernel (assign : Nat → Nat) (i : Nat) : List (Nat × Nat) :=
  if g.nSamples ≤ i then [] else [(assign i, 1)]

/-- The additions of `kmeans_update_kernel` to the sums. -/
def kmeansSumKernel (assign : Nat → Nat) (i : Nat) : List (Nat × ℚ) :=
  if g.nSamples ≤ i then []
  else
    (List.range g.headDim).map fun d =>
      (assign i * g.headDim + d, (data (i * g.headDim + d)).val)

/-- `kmeans_normalise_kernel`. -/
def kmeansNormaliseKernel (sums : Nat → ℚ) (counts : Nat → Nat) (c : Nat) : List (Nat × ℚ) :=
  if g.codebookSize ≤ c then []
  else
    let cnt := counts c
    -- empty cluster
    if cnt = 0 then []
    else
      let inv : ℚ := 1 / cnt
      (List.range g.headDim).map fun d =>
        (c * g.headDim + d, sums (c * g.headDim + d) * inv)

def kmeansAssign (s : Schedule (Nat × Nat)) (book : Nat → ℚ) (assign : Nat → Nat) : Nat → Nat :=
  launch s (gridThreads g.nSamples 256) (g.kmeansAssignKernel data book) assign

/-- `kmeans_update_kernel` behind the two memsets. -/
def kmeansUpdate (s : KmeansSchedule) (assign : Nat → Nat) : (Nat → ℚ) × (Nat → Nat) :=
  (launchAdds s.sums (gridThreads g.nSamples 256) (g.kmeansSumKernel data assign) fun _ => 0,
    launchAdds s.counts (gridThreads g.nSamples 256) (g.kmeansCountKernel assign) fun _ => 0)

def kmeansNormalise (s : Schedule (Nat × ℚ)) (sums : Nat → ℚ) (counts : Nat → Nat)
    (book : Nat → ℚ) : Nat → ℚ :=
  launch s (gridThreads g.codebookSize 256) (g.kmeansNormaliseKernel sums counts) book

/-- One iteration, on the assignment and the codebook. -/
def iteration (s : KmeansSchedule) (m : (Nat → Nat) × (Nat → ℚ)) : (Nat → Nat) × (Nat → ℚ) :=
  let assign := g.kmeansAssign data s.assign m.2 m.1
  let update := g.kmeansUpdate data s assign
  (assign, g.kmeansNormalise s.normalise update.1 update.2 m.2)

/-- `codebook_init_kmeans`. What is in the buffer of the assignment before is not defined. -/
def codebookInitKmeans (s : Nat → KmeansSchedule) (book : Nat → Half) (unset : Nat → Nat)
    (nIterations : Nat) : (Nat → Nat) × (Nat → ℚ) :=
  (List.range nIterations).foldl (fun m it => g.iteration data (s it) m)
    (unset, fun a => (book a).val)

/-! ## The launches -/

def sample (i d : Nat) : ℚ := (data (i * g.headDim + d)).val

variable {g data}

theorem kmeansAssign_eq (s : Schedule (Nat × Nat)) (book : Nat → ℚ) (assign : Nat → Nat)
    {i : Nat} (hi : i < g.nSamples) : g.kmeansAssign data s book assign i =
      bestIdx g.headDim g.codebookSize book (g.sample data i) := by
  have hgrid := le_gridThreads g.nSamples 256 (by decide)
  have hmem : (i, bestIdx g.headDim g.codebookSize book (g.sample data i)) ∈
      g.kmeansAssignKernel data book i := by
    unfold kmeansAssignKernel
    rw [if_neg (Nat.not_le_of_lt hi)]
    exact List.mem_singleton_self _
  unfold kmeansAssign
  refine launch_of_mem s assign (Nat.lt_of_lt_of_le hi hgrid) hmem ?_
  intro j _ w hw
  unfold kmeansAssignKernel at hw
  split at hw
  · cases hw
  · rw [List.mem_singleton, Prod.mk.injEq] at hw
    obtain ⟨rfl, rfl⟩ := hw
    rfl

/-- The threads beyond the samples add nothing. -/
theorem sum_grid {R : Type*} [AddCommMonoid R] (f : Nat → R)
    (hf : ∀ i, g.nSamples ≤ i → f i = 0) :
    ∑ i ∈ Finset.range (gridThreads g.nSamples 256), f i =
      ∑ i ∈ Finset.range g.nSamples, f i := by
  have hsub : Finset.range g.nSamples ⊆ Finset.range (gridThreads g.nSamples 256) :=
    Finset.range_subset_range.mpr (le_gridThreads g.nSamples 256 (by decide))
  refine (Finset.sum_subset hsub fun i _ hi => hf i ?_).symm
  exact Nat.le_of_not_lt fun h => hi (Finset.mem_range.mpr h)

theorem counts_eq (s : KmeansSchedule) (assign : Nat → Nat) (c : Nat) :
    (g.kmeansUpdate data s assign).2 c =
      (cluster (Finset.range g.nSamples) assign c).card := by
  show launchAdds _ _ _ _ c = _
  rw [launchAdds_eq, zero_add, sum_grid]
  · rw [cluster, Finset.card_filter]
    refine Finset.sum_congr rfl fun i hi => ?_
    unfold kmeansCountKernel added
    rw [if_neg (Nat.not_le_of_lt (Finset.mem_range.mp hi))]
    exact add_zero _
  · intro i hi
    unfold kmeansCountKernel
    rw [if_pos hi]
    rfl

/-- A sample adds its element `d` to element `d` of its entry. -/
theorem added_kmeansSum (assign : Nat → Nat) {i c d : Nat} (hi : i < g.nSamples)
    (hd : d < g.headDim) : added (g.kmeansSumKernel data assign i) (c * g.headDim + d) =
      if assign i = c then g.sample data i d else 0 := by
  unfold kmeansSumKernel
  rw [if_neg (Nat.not_le_of_lt hi)]
  split
  · rename_i hc
    rw [← hc]
    refine added_range (fun d => assign i * g.headDim + d) (g.sample data i) hd ?_
    intro d' _ h
    exact Nat.add_left_cancel h
  · rename_i hc
    refine added_of_not_mem fun v hv => ?_
    obtain ⟨d', hd', heq⟩ := List.mem_map.mp hv
    rw [Prod.mk.injEq] at heq
    exact hc (digits_inj (List.mem_range.mp hd') hd heq.1).1

theorem sums_eq (s : KmeansSchedule) (assign : Nat → Nat) (c : Nat) {d : Nat}
    (hd : d < g.headDim) : (g.kmeansUpdate data s assign).1 (c * g.headDim + d) =
      ∑ i ∈ cluster (Finset.range g.nSamples) assign c, g.sample data i d := by
  show launchAdds _ _ _ _ (c * g.headDim + d) = _
  rw [launchAdds_eq, zero_add, sum_grid]
  · rw [cluster, Finset.sum_filter]
    exact Finset.sum_congr rfl fun i hi => added_kmeansSum assign (Finset.mem_range.mp hi) hd
  · intro i hi
    unfold kmeansSumKernel
    rw [if_pos hi]
    rfl

theorem mem_kmeansNormaliseKernel {sums : Nat → ℚ} {counts : Nat → Nat} {c a : Nat} {v : ℚ} :
    (a, v) ∈ g.kmeansNormaliseKernel sums counts c ↔
      c < g.codebookSize ∧ counts c ≠ 0 ∧
        ∃ d < g.headDim, a = c * g.headDim + d ∧ v = sums a * (1 / counts c) := by
  unfold kmeansNormaliseKernel
  split
  · rename_i hout
    exact iff_of_false List.not_mem_nil fun h => absurd h.1 (Nat.not_lt.mpr hout)
  · rename_i hin
    rw [and_iff_right (Nat.lt_of_not_le hin)]
    dsimp only
    split
    · rename_i hempty
      exact iff_of_false List.not_mem_nil fun h => h.1 hempty
    · rename_i hsome
      rw [and_iff_right hsome, List.mem_map]
      constructor
      · intro h
        obtain ⟨d, hd, heq⟩ := h
        rw [Prod.mk.injEq] at heq
        obtain ⟨rfl, rfl⟩ := heq
        exact ⟨d, List.mem_range.mp hd, rfl, rfl⟩
      · intro h
        obtain ⟨d, hd, rfl, rfl⟩ := h
        exact ⟨d, List.mem_range.mpr hd, rfl⟩

theorem kmeansNormalise_of_count (s : Schedule (Nat × ℚ)) (sums : Nat → ℚ) {counts : Nat → Nat}
    (book : Nat → ℚ) {c d : Nat} (hc : c < g.codebookSize) (hd : d < g.headDim)
    (hcount : counts c ≠ 0) : g.kmeansNormalise s sums counts book (c * g.headDim + d) =
      sums (c * g.headDim + d) * (1 / counts c) := by
  have hgrid := le_gridThreads g.codebookSize 256 (by decide)
  unfold kmeansNormalise
  refine launch_of_mem s book (Nat.lt_of_lt_of_le hc hgrid)
    (mem_kmeansNormaliseKernel.mpr ⟨hc, hcount, d, hd, rfl, rfl⟩) ?_
  intro c' _ v hv
  obtain ⟨-, -, d', hd', heq, rfl⟩ := mem_kmeansNormaliseKernel.mp hv
  rw [(digits_inj hd hd' heq).1]

theorem kmeansNormalise_of_empty (s : Schedule (Nat × ℚ)) (sums : Nat → ℚ) {counts : Nat → Nat}
    (book : Nat → ℚ) {c d : Nat} (hd : d < g.headDim) (hcount : counts c = 0) :
    g.kmeansNormalise s sums counts book (c * g.headDim + d) = book (c * g.headDim + d) := by
  unfold kmeansNormalise
  refine launch_of_not_mem s book fun c' _ v hv => ?_
  obtain ⟨-, hcount', d', hd', heq, -⟩ := mem_kmeansNormaliseKernel.mp hv
  rw [← (digits_inj hd hd' heq).1] at hcount'
  exact hcount' hcount

/-! ## Iterations -/

theorem iteration_empty (s : KmeansSchedule) (m : (Nat → Nat) × (Nat → ℚ)) {c d : Nat}
    (hd : d < g.headDim)
    (hempty : cluster (Finset.range g.nSamples) (g.iteration data s m).1 c = ∅) :
    entry g.headDim (g.iteration data s m).2 c d = entry g.headDim m.2 c d := by
  refine kmeansNormalise_of_empty _ _ _ hd ?_
  refine (counts_eq s (g.iteration data s m).1 c).trans ?_
  rw [hempty, Finset.card_empty]

theorem iteration_mean (s : KmeansSchedule) (m : (Nat → Nat) × (Nat → ℚ)) {c d : Nat}
    (hc : c < g.codebookSize) (hd : d < g.headDim)
    (hsome : (cluster (Finset.range g.nSamples) (g.iteration data s m).1 c).Nonempty) :
    entry g.headDim (g.iteration data s m).2 c d =
      mean (cluster (Finset.range g.nSamples) (g.iteration data s m).1 c)
        fun i => g.sample data i d := by
  have hcount : (g.kmeansUpdate data s (g.iteration data s m).1).2 c =
      (cluster (Finset.range g.nSamples) (g.iteration data s m).1 c).card := counts_eq s _ c
  have hne : (g.kmeansUpdate data s (g.iteration data s m).1).2 c ≠ 0 := by
    rw [hcount]
    exact Finset.card_ne_zero.mpr hsome
  refine (kmeansNormalise_of_count _ _ _ hc hd hne).trans ?_
  rw [sums_eq s _ c hd, hcount, mul_one_div]
  rfl

/-- An iteration leaves every cell within the bounds of the samples. -/
theorem iteration_bounded (s : KmeansSchedule) {m : (Nat → Nat) × (Nat → ℚ)}
    (h : ∀ a, |m.2 a| ≤ halfMax) (a : Nat) : |(g.iteration data s m).2 a| ≤ halfMax := by
  by_cases ha : a < g.codebookSize * g.headDim
  · have hpos : 0 < g.headDim := Nat.pos_of_mul_pos_left (Nat.zero_lt_of_lt ha)
    have hc : a / g.headDim < g.codebookSize := (Nat.div_lt_iff_lt_mul hpos).mpr ha
    have hd : a % g.headDim < g.headDim := Nat.mod_lt a hpos
    rw [← Nat.div_add_mod' a g.headDim]
    rcases (cluster (Finset.range g.nSamples) (g.iteration data s m).1
      (a / g.headDim)).eq_empty_or_nonempty with hempty | hsome
    · refine le_of_eq_of_le (congrArg _ (iteration_empty s m hd hempty)) ?_
      exact h _
    · refine le_of_eq_of_le (congrArg _ (iteration_mean s m hc hd hsome)) ?_
      exact abs_mean_le hsome fun i _ => (data _).property
  · refine le_of_eq_of_le (congrArg _ (launch_of_not_mem s.normalise m.2 ?_)) (h a)
    intro c _ v hv
    obtain ⟨hc, -, d, hd, rfl, -⟩ := mem_kmeansNormaliseKernel.mp hv
    exact ha (digits_lt hc hd)

/-- The assignment of an iteration. -/
theorem iteration_assigns (s : KmeansSchedule) {m : (Nat → Nat) × (Nat → ℚ)}
    (h : ∀ a, |m.2 a| ≤ halfMax) {i : Nat} (hi : i < g.nSamples) :
    FirstNearest (fun c => sqDist (Finset.range g.headDim) (g.sample data i)
      (entry g.headDim m.2 c)) g.codebookSize ((g.iteration data s m).1 i) := by
  show FirstNearest _ _ (g.kmeansAssign data s.assign m.2 m.1 i)
  rw [kmeansAssign_eq s.assign m.2 m.1 hi]
  exact bestIdx_nearest g.headDim_lt g.codebookSize_pos h fun d => (data _).property

/-- The total squared distance from the samples to their nearest entries. -/
def totalDistance (g : Clustering) (data : Nat → Half) (book : Nat → ℚ) : ℚ :=
  distortion (Finset.range g.nSamples) (Finset.range g.headDim) (g.sample data)
    (Finset.range g.codebookSize)
    (Finset.nonempty_range_iff.mpr (Nat.pos_iff_ne_zero.mp g.codebookSize_pos))
    (entry g.headDim book)

/-- What an iteration makes of a codebook, with the assignment that it has computed. -/
structure LloydStep (g : Clustering) (data : Nat → Half) (assign : Nat → Nat)
    (book book' : Nat → ℚ) : Prop where
  assigned : ∀ i < g.nSamples,
    FirstNearest (fun c => sqDist (Finset.range g.headDim) (g.sample data i)
      (entry g.headDim book c)) g.codebookSize (assign i)
  recentred : Recentred (Finset.range g.nSamples) (Finset.range g.headDim) (g.sample data) assign
    (entry g.headDim book) (entry g.headDim book')
  totalDistance_le : g.totalDistance data book' ≤ g.totalDistance data book

theorem iteration_lloyd (s : KmeansSchedule) {m : (Nat → Nat) × (Nat → ℚ)}
    (h : ∀ a, |m.2 a| ≤ halfMax) :
    LloydStep g data (g.iteration data s m).1 m.2 (g.iteration data s m).2 := by
  have hassigned : ∀ i < g.nSamples, FirstNearest (fun c => sqDist (Finset.range g.headDim)
      (g.sample data i) (entry g.headDim m.2 c)) g.codebookSize ((g.iteration data s m).1 i) :=
    fun i hi => iteration_assigns s h hi
  have hrecentred : Recentred (Finset.range g.nSamples) (Finset.range g.headDim)
      (g.sample data) (g.iteration data s m).1 (entry g.headDim m.2)
      (entry g.headDim (g.iteration data s m).2) := by
    constructor
    · intro c hempty d hd
      exact iteration_empty s m (Finset.mem_range.mp hd) hempty
    · intro c hsome d hd
      obtain ⟨i, hi⟩ := hsome
      obtain ⟨hi', rfl⟩ := Finset.mem_filter.mp hi
      have hc := (hassigned i (Finset.mem_range.mp hi')).lt
      exact iteration_mean s m hc (Finset.mem_range.mp hd) ⟨i, hi⟩
  refine ⟨hassigned, hrecentred, distortion_recentred_le ?_ ?_ hrecentred⟩
  · intro i hi
    exact Finset.mem_range.mpr (hassigned i (Finset.mem_range.mp hi)).lt
  · intro i hi c hc
    exact (hassigned i (Finset.mem_range.mp hi)).least c (Finset.mem_range.mp hc)

/-! ## The whole initialisation -/

theorem codebookInitKmeans_succ (s : Nat → KmeansSchedule) (book : Nat → Half)
    (unset : Nat → Nat) (n : Nat) : g.codebookInitKmeans data s book unset (n + 1) =
      g.iteration data (s n) (g.codebookInitKmeans data s book unset n) := by
  unfold codebookInitKmeans
  rw [List.range_succ, List.foldl_append]
  rfl

theorem codebookInitKmeans_bounded (s : Nat → KmeansSchedule) (book : Nat → Half)
    (unset : Nat → Nat) (n a : Nat) :
    |(g.codebookInitKmeans data s book unset n).2 a| ≤ halfMax := by
  induction n generalizing a with
  | zero => exact (book a).property
  | succ n ih =>
    rw [codebookInitKmeans_succ]
    exact iteration_bounded (s n) ih a

/-- Each iteration is a Lloyd step, however many come before it. -/
theorem codebookInitKmeans_lloyd (g : Clustering) (data : Nat → Half)
    (s : Nat → KmeansSchedule) (book : Nat → Half) (unset : Nat → Nat) (n : Nat) :
    LloydStep g data (g.codebookInitKmeans data s book unset (n + 1)).1
      (g.codebookInitKmeans data s book unset n).2
      (g.codebookInitKmeans data s book unset (n + 1)).2 := by
  rw [codebookInitKmeans_succ]
  exact iteration_lloyd (s n) (codebookInitKmeans_bounded s book unset n)

/-- Three samples for two entries. -/
def threeSamples : Clustering where
  nSamples := 3
  codebookSize := 2
  headDim := 1
  headDim_lt := by decide
  codebookSize_pos := by decide

/-- The samples 1, 1 and 7. -/
def threeData (a : Nat) : Half :=
  if a = 2 then ⟨7, by norm_num [halfMax]⟩ else ⟨1, by norm_num [halfMax]⟩

def threeInit (nIterations : Nat) : (Nat → Nat) × (Nat → ℚ) :=
  threeSamples.codebookInitKmeans threeData
    (fun _ => ⟨.sequential _, .sequential _, .sequential _, .sequential _⟩) (fun _ => zeroHalf)
    (fun _ => 0) nIterations

/-- From two equal entries all samples go to the first, and the second stays; then they part. -/
theorem codebookInitKmeans_three :
    (LloydStep threeSamples threeData (threeInit 1).1 (threeInit 0).2 (threeInit 1).2 ∧
      (threeInit 1).2 0 = 3 ∧ (threeInit 1).2 1 = 0) ∧
    LloydStep threeSamples threeData (threeInit 2).1 (threeInit 1).2 (threeInit 2).2 ∧
      (threeInit 2).2 0 = 7 ∧ (threeInit 2).2 1 = 1 :=
  ⟨⟨codebookInitKmeans_lloyd _ _ _ _ _ 0, by decide +kernel, by decide +kernel⟩,
    codebookInitKmeans_lloyd _ _ _ _ _ 1, by decide +kernel, by decide +kernel⟩

end Clustering

end TruellmEngine.Cuda
