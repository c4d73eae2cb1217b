/-
  `scatter_weight`: the views of a weight on which the ranks of a tensor-parallel group work.

  The elements of the views are a partition of the elements of the weight, whichever axis is
  split (`mem_elements_shard`). Their `size_bytes` is one step of the split axis for each of
  its indices, as if nothing lay outside of the axis (`scatterWeight_partitions_iff`).
-/
import Mathlib.Algebra.BigOperators.Group.List.Lemmas
import Mathlib.Data.Fin.VecNotation
import TruellmEngine.Lib.Strided

namespace TruellmEngine.Cuda

open Lib

inductive DataType
  | f32 | f16 | bf16 | i32 | i16 | i8
  | q8_0 | q4_0 | q4_1 | q5_0 | q5_1 | q4_k_m
  deriving DecidableEq, Repr

/-- The switch of `scatter_weight`. -/
def elemSize : DataType → Nat
  | .f32 => 4
  | .f16 => 2
  | .bf16 => 2
  | .i32 => 4
  | .i16 => 2
  | .i8 => 1
  | _ => 0

/-- A view of memory. Strides count elements; the axes from `ndim` on are not used. -/
structure TrueBuffer where
  data : Nat
  sizeBytes : Nat
  dtype : DataType
  deviceId : Int
  ndim : Nat
  shape : Fin 4 → Nat
  stride : Fin 4 → Nat
  ndim_le : ndim ≤ 4

/-- The constructors refuse a rank outside of the group, unless the group has one member. -/
structure MultiGpu where
  tpSize : Nat
  rank : Nat
  tpSize_pos : 0 < tpSize
  rank_lt : tpSize ≠ 1 → rank < tpSize

theorem axis_lt {b : TrueBuffer} {splitAxis : Int} (h : ¬(splitAxis < 0 ∨ splitAxis ≥ b.ndim)) :
    splitAxis.toNat < 4 := by
  have hle := b.ndim_le
  omega

/-- `stride_elems` -/
def strideElems (weight : TrueBuffer) (axis : Fin 4) : Nat :=
  if weight.stride axis = 0 then 1 else weight.stride axis

/-- The view of `scatter_weight` along an axis. -/
def shard (weight : TrueBuffer) (axis : Fin 4) (tpSize rank : Nat) : TrueBuffer :=
  let shardLen := weight.shape axis / tpSize
  let offset := shardLen * rank
  { weight with
    shape := Function.update weight.shape axis shardLen
    data := weight.data + offset * strideElems weight axis * elemSize weight.dtype
    sizeBytes := shardLen * strideElems weight axis * elemSize weight.dtype }

def MultiGpu.scatterWeight (g : MultiGpu) (weight : TrueBuffer) (splitAxis : Int) :
    Except String TrueBuffer :=
  if g.tpSize = 1 then .ok weight
  else if h : splitAxis < 0 ∨ splitAxis ≥ weight.ndim then
    .error (s!"[MultiGpu] scatter_weight: split_axis={splitAxis}" ++
      s!" out of range for ndim={weight.ndim}")
  else
    let axis : Fin 4 := ⟨splitAxis.toNat, axis_lt h⟩
    if weight.shape axis % g.tpSize ≠ 0 then
      .error (s!"[MultiGpu] scatter_weight: axis length={weight.shape axis}" ++
        s!" is not divisible by tp_size={g.tpSize}")
    else if elemSize weight.dtype = 0 then
      .error "[MultiGpu] scatter_weight: cannot stride a quantised dtype"
    else .ok (shard weight axis g.tpSize g.rank)

/-! ## Tensors -/

namespace TrueBuffer

variable (b : TrueBuffer)

def axes : List (Fin 4) := (List.finRange 4).filter fun d => decide (d.val < b.ndim)

def numel : Nat := (b.axes.map b.shape).prod

/-- The addresses of the elements. -/
def elements : Set Nat :=
  {a | ∃ idx : Fin 4 → Nat, (∀ d ∈ b.axes, idx d < b.shape d) ∧
    a = b.data + offset b.stride idx b.axes * elemSize b.dtype}

/-- The elements fill the memory, with the axes in this order from the outermost on. -/
structure Contiguous (order : List (Fin 4)) : Prop where
  perm : order.Perm b.axes
  packed : Packed b.shape b.stride order
  size : b.sizeBytes = b.numel * elemSize b.dtype

end TrueBuffer

/-- What the views of the ranks should be. -/
structure Partitions (weight : TrueBuffer) (tpSize : Nat) (view : Nat → TrueBuffer) : Prop where
  apart : ∀ r < tpSize, ∀ r' < tpSize, r ≠ r' →
    ∀ a ∈ (view r).elements, a ∉ (view r').elements
  whole : ∀ a, (∃ r < tpSize, a ∈ (view r).elements) ↔ a ∈ weight.elements
  inside : ∀ r < tpSize, ∀ a ∈ (view r).elements,
    weight.data ≤ a ∧ a + elemSize weight.dtype ≤ weight.data + weight.sizeBytes
  size : ∀ r < tpSize, (view r).sizeBytes = (view r).numel * elemSize (view r).dtype

theorem scatterWeight_eq {g : MultiGpu} {weight : TrueBuffer} {axis : Fin 4}
    (htp : g.tpSize ≠ 1) (haxis : axis ∈ weight.axes) (hdvd : g.tpSize ∣ weight.shape axis)
    (helem : elemSize weight.dtype ≠ 0) :
    g.scatterWeight weight axis.val = .ok (shard weight axis g.tpSize g.rank) := by
  have hlt : axis.val < weight.ndim := of_decide_eq_true (List.mem_filter.mp haxis).2
  unfold MultiGpu.scatterWeight
  rw [if_neg htp, dif_neg (by omega)]
  show (if weight.shape axis % g.tpSize ≠ 0 then _ else _) = _
  rw [if_neg (fun h => h (Nat.mod_eq_zero_of_dvd hdvd)), if_neg helem]
  rfl

section

variable {w : TrueBuffer} {outer inner : List (Fin 4)} {axis : Fin 4} {tpSize : Nat}

theorem TrueBuffer.axes_nodup (b : TrueBuffer) : b.axes.Nodup :=
  (List.nodup_finRange 4).filter _

namespace TrueBuffer.Contiguous

variable (h : w.Contiguous (outer ++ axis :: inner))

include h

theorem mem_axes : axis ∈ w.axes :=
  h.perm.mem_iff.mp (List.mem_append_right _ List.mem_cons_self)

theorem nodup : (outer ++ axis :: inner).Nodup := h.perm.nodup_iff.mpr w.axes_nodup

theorem prod_eq (shape : Fin 4 → Nat) : (w.axes.map shape).prod =
    (outer.map shape).prod * (shape axis * (inner.map shape).prod) := by
  rw [← (h.perm.map shape).prod_eq, List.map_append, List.prod_append, List.map_cons,
    List.prod_cons]

theorem stride_axis : w.shape axis = 1 ∨ w.stride axis = (inner.map w.shape).prod := by
  have hpacked := h.packed
  clear h
  induction outer with
  | nil => exact hpacked.1
  | cons d outer ih => exact ih hpacked.2

theorem stride_axis_of_dvd (htp : tpSize ≠ 1) (hdvd : tpSize ∣ w.shape axis) :
    w.stride axis = (inner.map w.shape).prod := by
  refine h.stride_axis.resolve_left fun hone => htp ?_
  rw [hone] at hdvd
  exact Nat.dvd_one.mp hdvd

/-- The source replaces a stride of 0, which a tensor with elements does not have. -/
theorem strideElems_eq (htp : tpSize ≠ 1) (hdvd : tpSize ∣ w.shape axis)
    (hpos : ∀ d ∈ w.axes, 0 < w.shape d) : strideElems w axis = w.stride axis := by
  have hinner : 0 < (inner.map w.shape).prod := by
    rw [List.prod_pos_iff_forall_pos_nat, List.forall_mem_map]
    intro d hd
    exact hpos d (h.perm.mem_iff.mp (List.mem_append_right _ (List.mem_cons_of_mem _ hd)))
  unfold strideElems
  rw [h.stride_axis_of_dvd htp hdvd, if_neg hinner.ne']

theorem mem_elements_shard (htp : tpSize ≠ 1) (hdvd : tpSize ∣ w.shape axis) {r a : Nat}
    (hr : r < tpSize) : a ∈ (shard w axis tpSize r).elements ↔
      ∃ idx : Fin 4 → Nat, (∀ d ∈ w.axes, idx d < w.shape d) ∧
        idx axis / (w.shape axis / tpSize) = r ∧
        a = w.data + offset w.stride idx w.axes * elemSize w.dtype := by
  have hlen : w.shape axis = tpSize * (w.shape axis / tpSize) := (Nat.mul_div_cancel' hdvd).symm
  have hparts := fun o => mem_shard w.stride (o := o) w.axes_nodup h.mem_axes hlen hr
  constructor
  · intro ha
    obtain ⟨idx, hidx, ha⟩ := ha
    have hpos : ∀ d ∈ w.axes, 0 < w.shape d := by
      intro d hd
      have hlt : idx d < Function.update w.shape axis (w.shape axis / tpSize) d := hidx d hd
      by_cases hda : d = axis
      · rw [hda, Function.update_self] at hlt
        rw [hda]
        exact Nat.pos_of_ne_zero fun hzero => by rw [hzero, Nat.zero_div] at hlt; omega
      · rw [Function.update_of_ne hda] at hlt
        exact Nat.zero_lt_of_lt hlt
    obtain ⟨idx', hidx', hpart, hoffset⟩ := (hparts _).mp ⟨idx, hidx, rfl⟩
    refine ⟨idx', hidx', hpart, ?_⟩
    rw [← hoffset, ha]
    show w.data + w.shape axis / tpSize * r * strideElems w axis * elemSize w.dtype +
      offset w.stride idx w.axes * elemSize w.dtype = _
    rw [h.strideElems_eq htp hdvd hpos, Nat.mul_comm (w.shape axis / tpSize) r, Nat.add_mul,
      Nat.add_assoc]
  · intro ha
    obtain ⟨idx, hidx, hpart, ha⟩ := ha
    have hpos : ∀ d ∈ w.axes, 0 < w.shape d := fun d hd => Nat.zero_lt_of_lt (hidx d hd)
    obtain ⟨idx', hidx', hoffset⟩ := (hparts _).mpr ⟨idx, hidx, hpart, rfl⟩
    refine ⟨idx', hidx', ?_⟩
    rw [ha, hoffset]
    show _ = w.data + w.shape axis / tpSize * r * strideElems w axis * elemSize w.dtype +
      offset w.stride idx' w.axes * elemSize w.dtype
    rw [h.strideElems_eq htp hdvd hpos, Nat.mul_comm (w.shape axis / tpSize) r, Nat.add_mul,
      Nat.add_assoc]

theorem offset_inj (helem : elemSize w.dtype ≠ 0) {idx idx' : Fin 4 → Nat}
    (hidx : ∀ d ∈ w.axes, idx d < w.shape d) (hidx' : ∀ d ∈ w.axes, idx' d < w.shape d)
    (heq : w.data + offset w.stride idx w.axes * elemSize w.dtype =
      w.data + offset w.stride idx' w.axes * elemSize w.dtype) : idx axis = idx' axis := by
  have hoffset := Nat.eq_of_mul_eq_mul_right (Nat.pos_of_ne_zero helem) (Nat.add_left_cancel heq)
  rw [← offset_perm h.perm, ← offset_perm h.perm] at hoffset
  exact h.packed.offset_inj (fun d hd => hidx d (h.perm.mem_iff.mp hd))
    (fun d hd => hidx' d (h.perm.mem_iff.mp hd)) hoffset axis (h.perm.mem_iff.mpr h.mem_axes)

theorem elements_inside {a : Nat} (ha : a ∈ w.elements) :
    w.data ≤ a ∧ a + elemSize w.dtype ≤ w.data + w.sizeBytes := by
  obtain ⟨idx, hidx, rfl⟩ := ha
  have hlt := h.packed.offset_lt fun d hd => hidx d (h.perm.mem_iff.mp hd)
  rw [offset_perm h.perm, (h.perm.map w.shape).prod_eq] at hlt
  have hbytes : (offset w.stride idx w.axes + 1) * elemSize w.dtype ≤ w.sizeBytes := by
    rw [h.size]
    exact Nat.mul_le_mul_right _ hlt
  rw [Nat.add_mul, Nat.one_mul] at hbytes
  omega

/-- An index of the split axis falls into the part of one rank. -/
theorem mem_elements_iff (htp : tpSize ≠ 1) (hdvd : tpSize ∣ w.shape axis) (a : Nat) :
    (∃ r < tpSize, a ∈ (shard w axis tpSize r).elements) ↔ a ∈ w.elements := by
  constructor
  · intro ha
    obtain ⟨r, hr, ha⟩ := ha
    obtain ⟨idx, hidx, -, ha⟩ := (h.mem_elements_shard htp hdvd hr).mp ha
    exact ⟨idx, hidx, ha⟩
  · intro ha
    obtain ⟨idx, hidx, ha⟩ := ha
    have hlt := hidx axis h.mem_axes
    have hr : idx axis / (w.shape axis / tpSize) < tpSize := by
      apply Nat.div_lt_of_lt_mul
      rwa [Nat.div_mul_cancel hdvd]
    exact ⟨_, hr, (h.mem_elements_shard htp hdvd hr).mpr ⟨idx, hidx, rfl, ha⟩⟩

theorem numel_shard (r : Nat) : (shard w axis tpSize r).numel =
    (outer.map w.shape).prod * (w.shape axis / tpSize * (inner.map w.shape).prod) := by
  have hnodup := List.nodup_middle.mp h.nodup
  have hnot : ∀ d ∈ outer ++ inner, d ≠ axis :=
    fun d hd heq => (List.nodup_cons.mp hnodup).1 (heq ▸ hd)
  have hmap : ∀ l : List (Fin 4), (∀ d ∈ l, d ≠ axis) →
      l.map (Function.update w.shape axis (w.shape axis / tpSize)) = l.map w.shape :=
    fun l hl => List.map_congr_left fun d hd => Function.update_of_ne (hl d hd) _ _
  show (w.axes.map (Function.update w.shape axis (w.shape axis / tpSize))).prod = _
  rw [h.prod_eq, hmap outer fun d hd => hnot d (List.mem_append_left _ hd),
    hmap inner fun d hd => hnot d (List.mem_append_right _ hd), Function.update_self]

/-- The bytes of a view, in the general case. -/
theorem size_shard_iff (htp : tpSize ≠ 1) (hpos : 0 < tpSize) (hdvd : tpSize ∣ w.shape axis)
    (helem : elemSize w.dtype ≠ 0) (r : Nat) :
    (shard w axis tpSize r).sizeBytes = (shard w axis tpSize r).numel * elemSize w.dtype ↔
      w.shape axis = 0 ∨ (∀ d ∈ outer, w.shape d = 1) ∧ ∀ d ∈ inner, w.shape d ≠ 0 := by
  have houter : (outer.map w.shape).prod = 1 ↔ ∀ d ∈ outer, w.shape d = 1 := by
    constructor
    · intro hprod d hd
      exact Nat.dvd_one.mp (hprod ▸ List.dvd_prod (List.mem_map_of_mem hd))
    · intro hone
      exact List.prod_eq_one (List.forall_mem_map.mpr hone)
  have hinner : (inner.map w.shape).prod ≠ 0 ↔ ∀ d ∈ inner, w.shape d ≠ 0 := by
    rw [← Nat.pos_iff_ne_zero, List.prod_pos_iff_forall_pos_nat, List.forall_mem_map]
    simp only [Nat.pos_iff_ne_zero]
  rw [h.numel_shard, ← houter, ← hinner]
  show w.shape axis / tpSize * strideElems w axis * elemSize w.dtype = _ ↔ _
  rw [Nat.mul_left_inj helem]
  unfold strideElems
  rw [h.stride_axis_of_dvd htp hdvd]
  obtain ⟨s, hs⟩ := hdvd
  rw [hs, Nat.mul_div_cancel_left s hpos]
  rcases Nat.eq_zero_or_pos s with hzero | hspos
  · simp [hzero]
  · have haxis : tpSize * s ≠ 0 := Nat.mul_ne_zero hpos.ne' hspos.ne'
    split
    case isTrue hI =>
      rw [hI]
      simp [hspos.ne', haxis]
    case isFalse hI =>
      rw [eq_comm, Nat.mul_eq_right (Nat.mul_ne_zero hspos.ne' hI)]
      simp only [haxis, hI, false_or, ne_eq, not_false_eq_true, and_true]

end TrueBuffer.Contiguous

/-- The member of a group of `tpSize` with rank `r`. -/
def rankOf {tpSize r : Nat} (hr : r < tpSize) : MultiGpu where
  tpSize := tpSize
  rank := r
  tpSize_pos := Nat.zero_lt_of_lt hr
  rank_lt := fun _ => hr

/-- In a group of one the view is the weight. -/
theorem partitions_whole (h : w.Contiguous (outer ++ axis :: inner)) :
    Partitions w 1 fun _ => w where
  apart r hr r' hr' hne := by omega
  whole a := by simp
  inside _ _ _ ha := h.elements_inside ha
  size _ _ := h.size

theorem partitions_shard_iff (h : w.Contiguous (outer ++ axis :: inner)) (htp : tpSize ≠ 1)
    (hpos : 0 < tpSize) (hdvd : tpSize ∣ w.shape axis) (helem : elemSize w.dtype ≠ 0) :
    Partitions w tpSize (shard w axis tpSize) ↔
      w.shape axis = 0 ∨ (∀ d ∈ outer, w.shape d = 1) ∧ ∀ d ∈ inner, w.shape d ≠ 0 := by
  constructor
  · intro hviews
    exact (h.size_shard_iff htp hpos hdvd helem 0).mp (hviews.size 0 hpos)
  · intro hbytes
    refine ⟨fun r hr r' hr' hne => ?_, h.mem_elements_iff htp hdvd, fun r hr a ha => ?_,
      fun r _ => (h.size_shard_iff htp hpos hdvd helem r).mpr hbytes⟩
    · intro a ha ha'
      obtain ⟨idx, hidx, hpart, ha⟩ := (h.mem_elements_shard htp hdvd hr).mp ha
      obtain ⟨idx', hidx', hpart', ha'⟩ := (h.mem_elements_shard htp hdvd hr').mp ha'
      have hsame := h.offset_inj helem hidx hidx' (ha.symm.trans ha')
      exact hne (by rw [← hpart, ← hpart', hsame])
    · exact h.elements_inside ((h.mem_elements_iff htp hdvd a).mp ⟨r, hr, ha⟩)

/-- The weight is split along `axis`, with the axes `outer` outside of it and `inner` inside. -/
theorem scatterWeight_partitions_iff (h : w.Contiguous (outer ++ axis :: inner))
    (hpos : 0 < tpSize) (hdvd : tpSize ∣ w.shape axis) (helem : elemSize w.dtype ≠ 0) :
    ∃ view : Nat → TrueBuffer,
      (∀ r (hr : r < tpSize), (rankOf hr).scatterWeight w axis.val = .ok (view r)) ∧
      (Partitions w tpSize view ↔
        tpSize = 1 ∨ w.shape axis = 0 ∨
          (∀ d ∈ outer, w.shape d = 1) ∧ ∀ d ∈ inner, w.shape d ≠ 0) := by
  by_cases htp : tpSize = 1
  · subst htp
    refine ⟨fun _ => w, fun r hr => if_pos rfl, ?_⟩
    exact iff_of_true (partitions_whole h) (.inl rfl)
  · refine ⟨shard w axis tpSize, fun r hr => ?_, ?_⟩
    · exact scatterWeight_eq (g := rankOf hr) htp h.mem_axes hdvd helem
    · rw [partitions_shard_iff h htp hpos hdvd helem, or_iff_right htp]

end

/-- Two rows of two halves. -/
def twoRows : TrueBuffer where
  data := 4096
  sizeBytes := 8
  dtype := .f16
  deviceId := 0
  ndim := 2
  shape := ![2, 2, 1, 1]
  stride := ![2, 1, 0, 0]
  ndim_le := Nat.le_add_left 2 2

theorem twoRows_contiguous : twoRows.Contiguous [0, 1] :=
  ⟨by decide, ⟨.inr rfl, .inr rfl, trivial⟩, by decide⟩

theorem scatterWeight_twoRows : twoRows.Contiguous ([] ++ 0 :: [1]) ∧
    ∃ view : Nat → TrueBuffer,
      (∀ r (hr : r < 2), (rankOf hr).scatterWeight twoRows (0 : Fin 4).val = .ok (view r)) ∧
      (Partitions twoRows 2 view ↔
        2 = 1 ∨ twoRows.shape 0 = 0 ∨
          (∀ d ∈ ([] : List (Fin 4)), twoRows.shape d = 1) ∧
            ∀ d ∈ [(1 : Fin 4)], twoRows.shape d ≠ 0) :=
  ⟨twoRows_contiguous, scatterWeight_partitions_iff
    (show twoRows.Contiguous ([] ++ 0 :: [1]) from twoRows_contiguous) (by decide) (by decide)
    (by decide)⟩

/-- A column of the two rows has two elements, and the view says the bytes of one. -/
theorem column_bytes : twoRows.Contiguous [0, 1] ∧ ∃ view : Nat → TrueBuffer,
    (∀ r (hr : r < 2), (rankOf hr).scatterWeight twoRows 1 = .ok (view r)) ∧
    (view 0).numel = 2 ∧ (view 0).sizeBytes = 2 ∧ ¬Partitions twoRows 2 view := by
  refine ⟨twoRows_contiguous, shard twoRows 1 2, fun r hr => ?_, by decide, by decide, fun h => ?_⟩
  · show (rankOf hr).scatterWeight twoRows ((1 : Fin 4).val : Int) = _
    apply scatterWeight_eq
    · exact Nat.succ_ne_self 1
    · decide
    · exact Nat.dvd_refl 2
    · decide
  · exact absurd (h.size 0 Nat.two_pos) (by decide)

end TruellmEngine.Cuda
