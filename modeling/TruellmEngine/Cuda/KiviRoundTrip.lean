/-
  What the KiVi decompressor makes of a record, and how long a record is.

  `unpack_restored`: whatever record lies in memory, the decompressor walks it as the
  compressor has laid it out. `length_record_le_iff`: when a record is no longer than
  `kivi_compressed_bytes`. `kivi_correct_iff` is the round trip of a launch, where the records
  of all vectors lie side by side.
-/
import TruellmEngine.Cuda.KiviCodec

namespace TruellmEngine.Cuda

open Lib

namespace KiviParams

variable {p : KiviParams} {r : Nat → ℚ} {g i : Nat}

/-! ## Reading a record -/

theorem low_nibble : ∀ q1 < 16, ∀ q0 < 16,
    (UInt8.ofNat (q1 <<< 4 ||| q0) &&& 0x0F).toNat = q0 := by decide +kernel

theorem high_nibble : ∀ q1 < 16, ∀ q0 < 16,
    (UInt8.ofNat (q1 <<< 4 ||| q0) >>> 4).toNat = q1 := by decide +kernel

theorem quantise_lt (p : KiviParams) (r : Nat → ℚ) (g i : Nat) : p.quantise r g i < 16 := by
  unfold quantise
  dsimp only
  split
  · split
    · decide
    · decide
  · split
    · decide
    · omega

variable {x : Nat → ℚ} {src : Nat → KiviByte} {base : Nat}

theorem length_outliers_upTo (x : Nat → ℚ) (n : Nat) :
    ((List.range n).flatMap fun i => KiviByte.byte (p.outlierIdx x i) ::
      KiviByte.ofHalf (x (p.outlierIdx x i).toNat)).length = 3 * n := by
  rw [List.length_flatMap]
  simp only [KiviByte.ofHalf, List.length_cons, List.length_nil, List.map_const',
    List.sum_replicate, List.length_range, nsmul_eq_mul, Nat.cast_id]
  omega

theorem readOutlier_eq (u : Unpacking) {b : UInt8} {y : ℚ} (hb : b.toNat < p.headDim)
    (h : HoldsAt src u.pos (KiviByte.byte b :: KiviByte.ofHalf y)) :
    p.readOutlier src u =
      ⟨u.pos + 3, Function.update u.result b.toNat y, Function.update u.written b.toNat true⟩ := by
  have hbyte : src u.pos = .byte b := h 0 (show 0 < 3 by decide)
  have hlow : src (u.pos + 1) = .low y := h 1 (show 1 < 3 by decide)
  have hhigh : src (u.pos + 2) = .high y := h 2 (show 2 < 3 by decide)
  unfold readOutlier
  simp only [hbyte, hlow, hhigh, KiviByte.toUInt8, KiviByte.toHalf, if_pos hb, if_true]

/-- After `n` outliers. -/
theorem readOutliers_upTo {n : Nat} (hn : n ≤ p.nOut)
    (hrecord : HoldsAt src base ((List.range n).flatMap fun i =>
      KiviByte.byte (p.outlierIdx x i) :: KiviByte.ofHalf (x (p.outlierIdx x i).toNat))) :
    (List.range n).foldl (fun u _ => p.readOutlier src u) ⟨base, fun _ => 0, fun _ => false⟩ =
      ⟨base + 3 * n,
        fun ch => if (List.range n).any fun i => (p.outlierIdx x i).toNat == ch then x ch else 0,
        fun ch => (List.range n).any fun i => (p.outlierIdx x i).toNat == ch⟩ := by
  induction n with
  | zero => rfl
  | succ n ih =>
    rw [List.range_succ, List.flatMap_append, List.flatMap_singleton, holdsAt_append,
      length_outliers_upTo] at hrecord
    rw [List.range_succ, List.foldl_append, ih (Nat.le_of_succ_le hn) hrecord.1, List.foldl_cons,
      List.foldl_nil, readOutlier_eq _ ((outlierIdx_spec x).1 n hn) hrecord.2]
    simp only [List.any_append, List.any_cons, List.any_nil, Bool.or_false]
    congr 1
    · funext ch
      by_cases hch : ch = (p.outlierIdx x n).toNat
      · subst hch
        simp
      · rw [Function.update_of_ne hch]
        simp [Ne.symm hch]
    · funext ch
      by_cases hch : ch = (p.outlierIdx x n).toNat
      · subst hch
        simp
      · rw [Function.update_of_ne hch]
        simp [Ne.symm hch]

theorem readOutliers_eq (hrecord : HoldsAt src base (p.outlierSection x)) :
    p.readOutliers src base =
      ⟨base + 3 * p.nOut, fun ch => if p.isOutlier x ch then x ch else 0, p.isOutlier x⟩ :=
  readOutliers_upTo (le_refl p.nOut) hrecord

/-- The stores that restore the residuals of a group. -/
def groupStores (p : KiviParams) (x : Nat → ℚ) (g : Nat) : List (Nat × ℚ) :=
  (List.range' (p.groupStart g) (p.groupEnd g - p.groupStart g)).map fun i =>
    ((p.residualChannels x).getD i p.headDim, p.restored (p.residuals x) g i)

theorem residualChannels_lt (x : Nat → ℚ) {i : Nat} (hi : i < p.nRes) :
    (p.residualChannels x).getD i p.headDim < p.headDim := by
  have hlen : i < (p.residualChannels x).length := by
    rwa [length_residualChannels]
  rw [List.getD_eq_getElem _ _ hlen]
  exact (mem_residualChannels.mp (List.getElem_mem hlen)).1

/-- A residual of the group behind its pairs. -/
theorem readResidual_eq {r : Nat → ℚ} {pack : Nat} {channels : List Nat} {result : Nat → ℚ}
    (hpairs : HoldsAt src pack ((List.range (p.packBytes g)).map fun k =>
      KiviByte.byte (p.packed r g (p.groupStart g + 2 * k))))
    (hi : p.InGroup g i) (hch : channels.getD i p.headDim < p.headDim) :
    p.readResidual src channels g pack (p.step r g) (p.zero r g) result i =
      Function.update result (channels.getD i p.headDim) (p.restored r g i) := by
  obtain ⟨hstart, hend⟩ := hi
  obtain ⟨j, rfl⟩ := Nat.exists_eq_add_of_le hstart
  have hpair : src (pack + j / 2) = .byte (p.packed r g (p.groupStart g + 2 * (j / 2))) :=
    hpairs.map_range (by unfold packBytes; omega)
  unfold readResidual restored
  simp only [Nat.add_sub_cancel_left, hpair, KiviByte.toUInt8, if_pos hch]
  congr 3
  unfold packed
  rcases Nat.mod_two_eq_zero_or_one j with heven | hodd
  · have hj : 2 * (j / 2) = j := by omega
    rw [if_pos heven, hj]
    have hq1 : (if p.groupStart g + j + 1 < p.groupEnd g then
        p.quantise r g (p.groupStart g + j + 1) else 0) < 16 := by
      split
      · exact quantise_lt p r g _
      · decide
    exact congrArg Nat.cast (low_nibble _ hq1 _ (quantise_lt p r g _))
  · have hj : p.groupStart g + 2 * (j / 2) + 1 = p.groupStart g + j := by omega
    rw [if_neg (by omega), hj, if_pos hend]
    exact congrArg Nat.cast (high_nibble _ (quantise_lt p r g _) _ (quantise_lt p r g _))

theorem readGroup_eq {result : Nat → ℚ}
    (hgroup : HoldsAt src base (p.groupSection (p.residuals x) g)) :
    p.readGroup src (p.residualChannels x) (base, result) g =
      (base + (p.groupSection (p.residuals x) g).length, storeAll (p.groupStores x g) result) := by
  unfold groupSection at hgroup ⊢
  rw [holdsAt_append] at hgroup
  obtain ⟨hpairs, htail⟩ := hgroup
  rw [List.length_map, List.length_range] at htail
  have hstep : (src (base + p.packBytes g)).toHalf (src (base + p.packBytes g + 1)) =
      p.step (p.residuals x) g := by
    rw [show src (base + p.packBytes g) = _ from htail 0 (show 0 < 4 by decide),
      show src (base + p.packBytes g + 1) = _ from htail 1 (show 1 < 4 by decide)]
    exact if_pos rfl
  have hzero : (src (base + p.packBytes g + 2)).toHalf (src (base + p.packBytes g + 3)) =
      p.zero (p.residuals x) g := by
    rw [show src (base + p.packBytes g + 2) = _ from htail 2 (show 2 < 4 by decide),
      show src (base + p.packBytes g + 3) = _ from htail 3 (show 3 < 4 by decide)]
    exact if_pos rfl
  unfold readGroup
  dsimp only
  rw [hstep, hzero]
  refine Prod.ext ?_ ?_
  · rw [List.length_append, List.length_map, List.length_range]
    rfl
  · unfold groupStores storeAll
    rw [List.foldl_map]
    refine List.foldl_ext _ _ _ fun result i hi => ?_
    have hgroup := mem_range'_iff_inGroup.mp hi
    have hlt : i < p.nRes := Nat.lt_of_lt_of_le hgroup.2 (Nat.min_le_right _ _)
    exact readResidual_eq hpairs hgroup (residualChannels_lt x hlt)

theorem readGroups_upTo {result : Nat → ℚ} (n : Nat)
    (hgroups : HoldsAt src base ((List.range n).flatMap (p.groupSection (p.residuals x)))) :
    (List.range n).foldl (p.readGroup src (p.residualChannels x)) (base, result) =
      (base + ((List.range n).flatMap (p.groupSection (p.residuals x))).length,
        storeAll ((List.range n).flatMap (p.groupStores x)) result) := by
  induction n with
  | zero => rfl
  | succ n ih =>
    rw [List.range_succ, List.flatMap_append, List.flatMap_singleton, holdsAt_append] at hgroups
    rw [List.range_succ, List.foldl_append, ih hgroups.1, List.foldl_cons, List.foldl_nil,
      readGroup_eq hgroups.2, List.flatMap_append, List.flatMap_singleton, List.flatMap_append,
      List.flatMap_singleton, List.length_append, Nat.add_assoc]
    congr 1
    unfold storeAll
    rw [List.foldl_append]

/-- The decompressor reads what the compressor has written. -/
theorem unpack_eq (hrecord : HoldsAt src base (p.record x)) :
    p.unpack src base = storeAll ((List.range p.nGroups).flatMap (p.groupStores x))
      fun ch => if p.isOutlier x ch then x ch else 0 := by
  unfold record at hrecord
  rw [holdsAt_append] at hrecord
  obtain ⟨houtliers, hgroups⟩ := hrecord
  rw [show (p.outlierSection x).length = 3 * p.nOut from length_outliers_upTo x p.nOut]
    at hgroups
  unfold unpack
  rw [readOutliers_eq houtliers]
  exact congrArg Prod.snd (readGroups_upTo p.nGroups hgroups)

/-! ## The round trip of a vector -/

/-- Half a step of the group, or the threshold of a degenerate one. -/
def tolerance (p : KiviParams) (r : Nat → ℚ) (g : Nat) : ℚ :=
  if p.degenerate r g then 1 / 10 ^ 6 else p.groupRange r g / 15 / 2

/-- The outliers are as they were, and as many as asked for. The other channels, each in one of
    the groups, are within the tolerance of their group. -/
structure Restored (p : KiviParams) (x y : Nat → ℚ) : Prop where
  count : (p.outliers x).card = p.nOutliers
  outliers : ∀ ch ∈ p.outliers x, y ch = x ch
  residuals : ∀ ch < p.headDim, ch ∉ p.outliers x → ∃ g < p.nGroups, ∃ i, p.InGroup g i ∧
    (p.residualChannels x).getD i p.headDim = ch ∧ |y ch - x ch| ≤ p.tolerance (p.residuals x) g

theorem inGroup_div (hi : i < p.nRes) :
    p.InGroup (i / p.groupSize) i ∧ i / p.groupSize < p.nGroups := by
  have hpos : 0 < p.groupSize := p.bounds.2.2.2.2
  have hlow := Nat.div_mul_le_self i p.groupSize
  have hhigh := Nat.lt_div_mul_add hpos (a := i)
  refine ⟨⟨hlow, Nat.lt_min.mpr ⟨hhigh, hi⟩⟩, ?_⟩
  unfold nGroups
  rw [Nat.lt_div_iff_mul_lt hpos]
  omega

theorem inGroup_unique {g' : Nat} (h : p.InGroup g i) (h' : p.InGroup g' i) : g = g' := by
  have hpos : 0 < p.groupSize := p.bounds.2.2.2.2
  have hrow : ∀ {g}, p.InGroup g i → InRow p.groupSize g i :=
    fun h => ⟨h.1, Nat.lt_of_lt_of_le h.2 (Nat.min_le_left _ _)⟩
  rw [← (inRow_iff hpos).mp (hrow h), ← (inRow_iff hpos).mp (hrow h')]

theorem mem_groupStores {ch : Nat} {v : ℚ} {n : Nat} :
    (ch, v) ∈ (List.range n).flatMap (p.groupStores x) ↔
      ∃ g < n, ∃ i, p.InGroup g i ∧ ch = (p.residualChannels x).getD i p.headDim ∧
        v = p.restored (p.residuals x) g i := by
  unfold groupStores
  simp only [List.mem_flatMap, List.mem_range, List.mem_map, mem_range'_iff_inGroup, Prod.mk.injEq]
  constructor
  · intro h
    obtain ⟨g, hg, i, hi, hch, hv⟩ := h
    exact ⟨g, hg, i, hi, hch.symm, hv.symm⟩
  · intro h
    obtain ⟨g, hg, i, hi, hch, hv⟩ := h
    exact ⟨g, hg, i, hi, hch.symm, hv.symm⟩

theorem mem_outliers {ch : Nat} (hch : ch < p.headDim) :
    ch ∈ p.outliers x ↔ p.isOutlier x ch = true := by
  unfold outliers
  rw [Finset.mem_filter, Finset.mem_range, and_iff_right hch]

theorem unpack_restored (hx : ∀ d, |x d| ≤ halfMax) (hrecord : HoldsAt src base (p.record x)) :
    p.Restored x (p.unpack src base) := by
  rw [unpack_eq hrecord]
  refine ⟨(card_outliers x).trans p.nOut_eq, fun ch hch => ?_, fun ch hch hnot => ?_⟩
  · have houtlier := (Finset.mem_filter.mp hch).2
    rw [storeAll_of_not_mem, if_pos houtlier]
    intro v hv
    obtain ⟨g, hg, i, hi, rfl, -⟩ := mem_groupStores.mp hv
    have hlen : i < (p.residualChannels x).length := by
      rw [length_residualChannels]
      exact Nat.lt_of_lt_of_le hi.2 (Nat.min_le_right _ _)
    rw [List.getD_eq_getElem _ _ hlen] at houtlier
    have hother := (mem_residualChannels.mp (List.getElem_mem hlen)).2
    rw [houtlier] at hother
    cases hother
  · rw [mem_outliers hch, Bool.not_eq_true] at hnot
    obtain ⟨i, hlen, hget⟩ := List.mem_iff_getElem.mp (mem_residualChannels.mpr ⟨hch, hnot⟩)
    have hi : i < p.nRes := by rwa [← length_residualChannels x]
    have hch' : (p.residualChannels x).getD i p.headDim = ch := by
      rw [List.getD_eq_getElem _ _ hlen, hget]
    obtain ⟨hgroup, hg⟩ := inGroup_div hi
    refine ⟨i / p.groupSize, hg, i, hgroup, hch', ?_⟩
    have hvalue : storeAll ((List.range p.nGroups).flatMap (p.groupStores x))
        (fun ch => if p.isOutlier x ch then x ch else 0) ch =
          p.restored (p.residuals x) (i / p.groupSize) i := by
      refine storeAll_of_mem _ (mem_groupStores.mpr ⟨_, hg, i, hgroup, hch'.symm, rfl⟩) ?_
      intro w hw
      obtain ⟨g', -, i', hgroup', heq, rfl⟩ := mem_groupStores.mp hw
      have hlen' : i' < (p.residualChannels x).length := by
        rw [length_residualChannels]
        exact Nat.lt_of_lt_of_le hgroup'.2 (Nat.min_le_right _ _)
      rw [List.getD_eq_getElem _ _ hlen', ← hget] at heq
      have hsame : i = i' := (nodup_residualChannels x).getElem_inj_iff.mp heq
      subst hsame
      rw [inGroup_unique hgroup hgroup']
    have hresidual : p.residuals x i = x ch := by
      unfold residuals
      rw [List.getD_eq_getElem _ _ hlen, hget]
    have hr : ∀ i, |p.residuals x i| ≤ halfMax := fun i => hx _
    rw [hvalue, ← hresidual]
    unfold tolerance
    split
    · rename_i hdeg
      exact restored_degenerate hr hgroup hdeg
    · rename_i hdeg
      exact restored_within hr hgroup (Bool.not_eq_true _ ▸ hdeg)

/-! ## The length of a record -/

/-- The residuals in the last group. -/
def lastLen (p : KiviParams) : Nat := p.nRes - (p.nGroups - 1) * p.groupSize

/-- A record is no longer than `kivi_compressed_bytes` has it: the pairs of an odd number of
    values take half a byte more, which there is room for only behind a short last group. -/
def Fits (p : KiviParams) : Prop :=
  p.groupSize % 2 = 0 ∨ p.nGroups = 0 ∨ p.nGroups - 1 + (p.lastLen + 1) / 2 ≤ p.groupSize / 2

instance (p : KiviParams) : Decidable p.Fits := by
  unfold Fits
  infer_instance

theorem length_record (x : Nat → ℚ) : (p.record x).length =
    3 * p.nOut + (∑ g ∈ Finset.range p.nGroups, p.packBytes g + 4 * p.nGroups) := by
  have hgroup : ∀ g, (p.groupSection (p.residuals x) g).length = p.packBytes g + 4 := by
    intro g
    unfold groupSection
    rw [List.length_append, List.length_map, List.length_range]
    rfl
  have hgroups : ((List.range p.nGroups).flatMap (p.groupSection (p.residuals x))).length =
      ∑ g ∈ Finset.range p.nGroups, (p.packBytes g + 4) := by
    rw [List.length_flatMap]
    simp only [hgroup]
    rfl
  unfold record
  rw [List.length_append, show (p.outlierSection x).length = 3 * p.nOut from
    length_outliers_upTo x p.nOut, hgroups, Finset.sum_add_distrib, Finset.sum_const,
    Finset.card_range, nsmul_eq_mul, Nat.cast_id, Nat.mul_comm p.nGroups]

theorem kiviCompressedBytes_eq (p : KiviParams) :
    kiviCompressedBytes p.headDim p.nOutliers p.groupSize =
      (3 * p.nOut + p.nGroups * (p.groupSize / 2 + 4) : Nat) := by
  have hle := p.bounds.2.2.2.1
  have hpos := p.bounds.2.2.2.2
  have hsum : (p.headDim : Int) - p.nOutliers + p.groupSize - 1 =
      (p.headDim - p.nOutliers + p.groupSize - 1 : Nat) := by omega
  unfold kiviCompressedBytes nGroups nRes
  dsimp only
  rw [hsum, nOut_eq, ← Int.ofNat_tdiv, show (2 : Int) = (2 : Nat) from rfl, ← Int.ofNat_tdiv]
  push_cast
  ring

/-- The groups before the last one are full. -/
theorem packBytes_full (hg : g + 1 < p.nGroups) : p.packBytes g = (p.groupSize + 1) / 2 := by
  have hpos := p.bounds.2.2.2.2
  have hfull : (g + 1) * p.groupSize ≤ p.nRes := by
    have hmul : (g + 2) * p.groupSize ≤ p.nRes + p.groupSize - 1 := by
      refine (Nat.mul_le_mul_right _ (show g + 2 ≤ p.nGroups from hg)).trans ?_
      exact Nat.div_mul_le_self _ _
    rw [Nat.succ_mul] at hmul
    omega
  rw [Nat.succ_mul] at hfull
  unfold packBytes groupEnd groupStart
  rw [Nat.min_eq_left hfull, Nat.add_sub_cancel_left]

theorem packBytes_last (h : 0 < p.nGroups) :
    p.packBytes (p.nGroups - 1) = (p.lastLen + 1) / 2 := by
  have hpos := p.bounds.2.2.2.2
  have hall : p.nRes ≤ (p.nGroups - 1) * p.groupSize + p.groupSize := by
    have hdiv := Nat.div_add_mod (p.nRes + p.groupSize - 1) p.groupSize
    have hmod := Nat.mod_lt (p.nRes + p.groupSize - 1) hpos
    have hsplit : p.nGroups * p.groupSize = (p.nGroups - 1) * p.groupSize + p.groupSize := by
      rw [← Nat.succ_mul]
      congr 1
      omega
    unfold nGroups at hsplit ⊢
    rw [← hsplit, Nat.mul_comm]
    omega
  unfold packBytes groupEnd groupStart lastLen
  rw [Nat.min_eq_right hall]

theorem sum_packBytes (h : 0 < p.nGroups) : ∑ g ∈ Finset.range p.nGroups, p.packBytes g =
    (p.nGroups - 1) * ((p.groupSize + 1) / 2) + (p.lastLen + 1) / 2 := by
  obtain ⟨n, hn⟩ := Nat.exists_eq_add_of_le h
  have hfull : ∑ g ∈ Finset.range n, p.packBytes g = n * ((p.groupSize + 1) / 2) := by
    rw [Finset.sum_congr rfl fun g hg => packBytes_full
      (by rw [hn]; have hlt := Finset.mem_range.mp hg; omega)]
    rw [Finset.sum_const, Finset.card_range, nsmul_eq_mul, Nat.cast_id]
  have hlast := packBytes_last h
  rw [hn, Nat.add_sub_cancel_left] at hlast ⊢
  rw [Nat.add_comm 1 n, Finset.sum_range_succ, hfull, hlast]

theorem lastLen_le (h : 0 < p.nGroups) : p.lastLen ≤ p.groupSize := by
  have hdiv := Nat.div_add_mod (p.nRes + p.groupSize - 1) p.groupSize
  have hmod := Nat.mod_lt (p.nRes + p.groupSize - 1) p.bounds.2.2.2.2
  have hsplit : p.nGroups * p.groupSize = (p.nGroups - 1) * p.groupSize + p.groupSize := by
    rw [← Nat.succ_mul]
    congr 1
    omega
  unfold lastLen
  unfold nGroups at hsplit ⊢
  rw [Nat.mul_comm] at hdiv
  omega

theorem length_record_le_iff (x : Nat → ℚ) :
    ((p.record x).length : Int) ≤ kiviCompressedBytes p.headDim p.nOutliers p.groupSize ↔
      p.Fits := by
  rw [kiviCompressedBytes_eq, length_record, Int.ofNat_le]
  unfold Fits
  rcases Nat.eq_zero_or_pos p.nGroups with hzero | hpos
  · rw [hzero]
    simp
  · have hlast := lastLen_le hpos
    rw [sum_packBytes hpos]
    obtain ⟨n, hn⟩ := Nat.exists_eq_add_of_le hpos
    rw [hn, Nat.add_sub_cancel_left, Nat.add_mul, Nat.mul_add n, Nat.one_mul]
    rcases Nat.mod_two_eq_zero_or_one p.groupSize with heven | hodd
    · have hhalf : (p.groupSize + 1) / 2 = p.groupSize / 2 := by omega
      rw [hhalf]
      refine iff_of_true ?_ (.inl heven)
      omega
    · have hhalf : (p.groupSize + 1) / 2 = p.groupSize / 2 + 1 := by omega
      rw [hhalf, Nat.mul_add, Nat.mul_one]
      omega

theorem length_record_le_stride (h : p.Fits) (x : Nat → ℚ) :
    (p.record x).length ≤ p.kiviStride := by
  have hle := (length_record_le_iff x).mpr h
  unfold kiviStride
  omega

/-! ## The round trip of a launch -/

/-- Vector `v` of the buffer. -/
def vector (p : KiviParams) (kv : Nat → Half) (v d : Nat) : ℚ := (kv (v * p.headDim + d)).val

/-- No record is longer than its place, so that none of them lies over its neighbour, and the
    vectors come back. -/
def Correct (p : KiviParams) (s : Schedule (Nat × KiviByte)) (s' : Schedule (Nat × ℚ))
    (nVecs : Nat) (kv : Nat → Half) (buf : Nat → KiviByte) : Prop :=
  (∀ v < nVecs, ((p.record (p.vector kv v)).length : Int) ≤
    kiviCompressedBytes p.headDim p.nOutliers p.groupSize) ∧
  ∃ kv', p.kiviReplace s s' nVecs kv buf = some kv' ∧
    ∀ v < nVecs, p.Restored (p.vector kv v) fun d => kv' (v * p.headDim + d)

theorem kiviCompress_holdsAt (s : Schedule (Nat × KiviByte)) {nVecs : Nat} (kv : Nat → Half)
    (buf : Nat → KiviByte) (hfits : p.Fits) {v : Nat} (hv : v < nVecs) :
    HoldsAt (launch s (gridThreads nVecs 128) (p.kiviCompressKernel nVecs kv) buf)
      (v * p.kiviStride) (p.record (p.vector kv v)) := by
  refine launch_holdsAt s (fun v => p.record (p.vector kv v))
    (le_gridThreads nVecs 128 (by decide)) ?_ ?_ ?_ hv
  · intro i hi
    exact if_neg (Nat.not_le_of_lt hi)
  · intro i hi
    exact if_pos hi
  · intro i _
    exact length_record_le_stride hfits (p.vector kv i)

theorem kiviDecompress_eq (s : Schedule (Nat × ℚ)) {nVecs : Nat} (buf : Nat → KiviByte)
    (kv : Nat → ℚ) {v d : Nat} (hv : v < nVecs) (hd : d < p.headDim) :
    launch s (gridThreads nVecs 128) (p.kiviDecompressKernel nVecs buf) kv
      (v * p.headDim + d) = p.unpack buf (v * p.kiviStride) d := by
  refine HoldsAt.map_range (launch_holdsAt s
    (fun v => (List.range p.headDim).map (p.unpack buf (v * p.kiviStride)))
    (le_gridThreads nVecs 128 (by decide)) ?_ ?_ ?_ hv) hd
  · intro i hi
    exact if_neg (Nat.not_le_of_lt hi)
  · intro i hi
    exact if_pos hi
  · intro i _
    rw [List.length_map, List.length_range]

/-- Channels beyond the vector do not count. -/
theorem Restored.congr {y y' : Nat → ℚ} (h : p.Restored x y)
    (hy : ∀ d < p.headDim, y' d = y d) : p.Restored x y' where
  count := h.count
  outliers ch hch := by
    rw [hy ch (Finset.mem_range.mp (Finset.mem_filter.mp hch).1)]
    exact h.outliers ch hch
  residuals ch hch := by
    rw [hy ch hch]
    exact h.residuals ch hch

/-- A launch on at least one vector is correct exactly where the sum in `n_groups` does not
    overflow and the records fit, whatever the vectors are. -/
theorem kivi_correct_iff (p : KiviParams) (s : Schedule (Nat × KiviByte))
    (s' : Schedule (Nat × ℚ)) (nVecs : Nat) (kv : Nat → Half) (buf : Nat → KiviByte) :
    p.Correct s s' nVecs kv buf ↔ nVecs = 0 ∨ p.inRange = true ∧ p.Fits := by
  rcases Nat.eq_zero_or_pos nVecs with hzero | hpos
  · subst hzero
    exact iff_of_true ⟨nofun, _, rfl, nofun⟩ (.inl rfl)
  rw [or_iff_right hpos.ne']
  constructor
  · intro h
    obtain ⟨hlength, kv', hsome, -⟩ := h
    refine ⟨?_, (length_record_le_iff _).mp (hlength 0 hpos)⟩
    unfold kiviReplace kiviCompress at hsome
    rw [if_neg hpos.ne'] at hsome
    by_contra hout
    rw [Bool.not_eq_true] at hout
    rw [hout] at hsome
    cases hsome
  · intro h
    obtain ⟨hrange, hfits⟩ := h
    refine ⟨fun v _ => (length_record_le_iff _).mpr hfits, ?_⟩
    unfold kiviReplace kiviCompress kiviDecompress
    rw [if_neg hpos.ne', hrange]
    refine ⟨_, if_neg hpos.ne', fun v hv => ?_⟩
    have hrecord := kiviCompress_holdsAt s kv buf hfits hv
    refine (unpack_restored (fun d => (kv _).property) hrecord).congr fun d hd => ?_
    exact kiviDecompress_eq s' _ _ hv hd

theorem one_lt_int : 1 < 2 ^ 31 := by decide

/-- One channel, in a group of its own. -/
def oneChannel : KiviParams where
  headDim := 1
  nOutliers := 0
  groupSize := 1
  supported := rfl
  groupSize_lt := one_lt_int

/-- Its record takes five bytes, in a place of four. -/
theorem odd_group_overruns :
    ¬ oneChannel.Correct (.sequential _) (.sequential _) 1 (fun _ => zeroHalf)
      fun _ => .byte 0 := by
  intro h
  have hfits := (length_record_le_iff _).mp (h.1 0 Nat.one_pos)
  exact absurd hfits (by decide)

end KiviParams

end TruellmEngine.Cuda
