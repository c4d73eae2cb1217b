/-
  The kernels of the vector-quantised cache (`vq_cache.cu`), and how `run_vq` launches them on
  the K and the V of a layer.

  Arithmetic is exact, and a `__half` is the number that it stands for. The threads of a launch
  may store in any order.

  `vqEncode_eq` and `vqDecode_eq` give what each launch leaves, element by element.
  `runVq_nearest`: each vector becomes the first entry nearest to it, and a second run changes
  neither the vectors nor the indices.
-/
import TruellmEngine.Cuda.KvCompression
import TruellmEngine.Lib.Launch
import TruellmEngine.Lib.VectorQuantizer
import Mathlib.Data.Rat.Cast.Order
import Mathlib.Algebra.Order.Ring.Rat
import Mathlib.Tactic.NormNum

namespace TruellmEngine.Cuda

open Lib

def halfMax : ℚ := 65504

def fltMax : ℚ := (2 ^ 24 - 1) * 2 ^ 104

/-- A finite `__half`. -/
abbrev Half := {x : ℚ // |x| ≤ halfMax}

theorem abs_zero_le_halfMax : |(0 : ℚ)| ≤ halfMax := by norm_num [halfMax]

def zeroHalf : Half := ⟨0, abs_zero_le_halfMax⟩

/-! ## The search -/

/-- The loop over the dimensions of a vector and an entry. -/
def distance (headDim : Nat) (vec entry : Nat → ℚ) : ℚ :=
  (List.range headDim).foldl (fun dist d =>
    let diff := vec d - entry d
    dist + diff * diff) 0

/-- The loop over the codebook. -/
def bestIdx (headDim codebookSize : Nat) (book vec : Nat → ℚ) : Nat :=
  (scanNearest (fun c => distance headDim vec fun d => book (c * headDim + d)) fltMax
    codebookSize).2

theorem distance_eq (headDim : Nat) (vec entry : Nat → ℚ) :
    distance headDim vec entry = sqDist (Finset.range headDim) vec entry := by
  unfold distance sqDist
  induction headDim with
  | zero => rfl
  | succ n ih =>
    rw [List.range_succ, List.foldl_append, ih, Finset.sum_range_succ, sq]
    rfl

/-- Entry `c` of a codebook. -/
def entry (headDim : Nat) (book : Nat → ℚ) (c d : Nat) : ℚ := book (c * headDim + d)

/-- No two vectors of finite elements are as far apart as `FLT_MAX`. -/
theorem sqDist_lt_fltMax {headDim : Nat} (hdim : headDim < 2 ^ 31) {x y : Nat → ℚ}
    (hx : ∀ d ∈ Finset.range headDim, |x d| ≤ halfMax)
    (hy : ∀ d ∈ Finset.range headDim, |y d| ≤ halfMax) :
    sqDist (Finset.range headDim) x y < fltMax := by
  have hdim' : (headDim : ℚ) ≤ 2 ^ 31 := by exact_mod_cast hdim.le
  calc sqDist (Finset.range headDim) x y
      ≤ (Finset.range headDim).card * (2 * halfMax) ^ 2 := sqDist_le hx hy
    _ = headDim * (2 * halfMax) ^ 2 := by rw [Finset.card_range]
    _ ≤ 2 ^ 31 * (2 * halfMax) ^ 2 := by gcongr
    _ < fltMax := by norm_num [halfMax, fltMax]

theorem bestIdx_nearest {headDim codebookSize : Nat} (hdim : headDim < 2 ^ 31)
    (hsize : 0 < codebookSize) {book vec : Nat → ℚ} (hbook : ∀ a, |book a| ≤ halfMax)
    (hvec : ∀ d, |vec d| ≤ halfMax) :
    FirstNearest (fun c => sqDist (Finset.range headDim) vec (entry headDim book c))
      codebookSize (bestIdx headDim codebookSize book vec) := by
  have hdist : (fun c => distance headDim vec fun d => book (c * headDim + d)) =
      fun c => sqDist (Finset.range headDim) vec (entry headDim book c) := by
    funext c
    exact distance_eq headDim vec _
  unfold bestIdx
  rw [hdist]
  refine (scanNearest_spec hsize (le_of_lt ?_)).2
  exact sqDist_lt_fltMax hdim (fun d _ => hvec d) fun d _ => hbook _

/-! ## The kernels -/

/-- The sizes that `run_vq` passes on. The constructor of the pass has seen to the bounds of
    the codebook; the vectors are indexed by an `int`. -/
structure VqGeometry where
  nKvHeads : Nat
  headDim : Nat
  codebookSize : Nat
  headDim_lt : headDim < 2 ^ 31
  codebookSize_pos : 0 < codebookSize
  codebookSize_le : (codebookSize : Int) ≤ vqMaxCodebookSize

/-- Orders for the stores of the two launches. -/
structure VqSchedule where
  encode : Schedule (Nat × UInt16)
  decode : Schedule (Nat × Half)

namespace VqGeometry

variable (g : VqGeometry) (seqLen : Nat) (book : Nat → Half)

/-- The index of the entry for the vector that begins at element `v * headDim`. -/
def best (kv : Nat → Half) (v : Nat) : Nat :=
  bestIdx g.headDim g.codebookSize (fun a => (book a).val)
    fun d => (kv (v * g.headDim + d)).val

/-- `vq_encode_kernel`: one thread has one token and head. -/
def vqEncodeKernel (kv : Nat → Half) (tid : Nat) : List (Nat × UInt16) :=
  let total := seqLen * g.nKvHeads
  if total ≤ tid then []
  else
    let tok := tid / g.nKvHeads
    let head := tid % g.nKvHeads
    [(tok * g.nKvHeads + head, UInt16.ofNat (g.best book kv (tok * g.nKvHeads + head)))]

/-- `vq_decode_kernel`. -/
def vqDecodeKernel (idx : Nat → UInt16) (tid : Nat) : List (Nat × Half) :=
  let total := seqLen * g.nKvHeads
  if total ≤ tid then []
  else
    let tok := tid / g.nKvHeads
    let head := tid % g.nKvHeads
    let codebookIdx := (idx (tok * g.nKvHeads + head)).toNat
    (List.range g.headDim).map fun d =>
      ((tok * g.nKvHeads + head) * g.headDim + d, book (codebookIdx * g.headDim + d))

def vqEncode (s : Schedule (Nat × UInt16)) (kv : Nat → Half) (idx : Nat → UInt16) :
    Nat → UInt16 :=
  launch s (gridThreads (seqLen * g.nKvHeads) 256) (g.vqEncodeKernel seqLen book kv) idx

def vqDecode (s : Schedule (Nat × Half)) (idx : Nat → UInt16) (kv : Nat → Half) : Nat → Half :=
  launch s (gridThreads (seqLen * g.nKvHeads) 256) (g.vqDecodeKernel seqLen book idx) kv

/-- Encode and decode in place, on one side of a layer. -/
def vqReplace (s : VqSchedule) (idx : Nat → UInt16) (kv : Nat → Half) :
    (Nat → UInt16) × (Nat → Half) :=
  let idx' := g.vqEncode seqLen book s.encode kv idx
  (idx', g.vqDecode seqLen book s.decode idx' kv)

/-- The launches of `run_vq`: K, then V, over one buffer of indices. -/
def runVq (book : Side → Nat → Half) (s : Side → VqSchedule)
    (m : (Nat → UInt16) × (Side → Nat → Half)) : (Nat → UInt16) × (Side → Nat → Half) :=
  let k := g.vqReplace seqLen (book .k) (s .k) m.1 (m.2 .k)
  let v := g.vqReplace seqLen (book .v) (s .v) k.1 (m.2 .v)
  (v.1, fun side => match side with
    | .k => k.2
    | .v => v.2)

/-! ## What the launches leave -/

variable {g seqLen book}

theorem best_nearest (kv : Nat → Half) (v : Nat) :
    FirstNearest (fun c => sqDist (Finset.range g.headDim)
        (fun d => (kv (v * g.headDim + d)).val) (entry g.headDim (fun a => (book a).val) c))
      g.codebookSize (g.best book kv v) :=
  bestIdx_nearest g.headDim_lt g.codebookSize_pos (fun a => (book a).property)
    fun _ => (kv _).property

/-- The index fits its type. -/
theorem toNat_best (kv : Nat → Half) (v : Nat) :
    (UInt16.ofNat (g.best book kv v)).toNat = g.best book kv v := by
  have hlt : g.best book kv v < g.codebookSize := (best_nearest kv v).lt
  have hle := g.codebookSize_le
  unfold vqMaxCodebookSize at hle
  rw [UInt16.toNat_ofNat']
  omega

theorem mem_vqEncodeKernel {kv : Nat → Half} {tid a : Nat} {w : UInt16} :
    (a, w) ∈ g.vqEncodeKernel seqLen book kv tid ↔
      tid < seqLen * g.nKvHeads ∧ a = tid ∧ w = UInt16.ofNat (g.best book kv tid) := by
  unfold vqEncodeKernel
  dsimp only
  rw [Nat.div_add_mod']
  split
  · rename_i hout
    exact iff_of_false List.not_mem_nil fun h => absurd h.1 (Nat.not_lt.mpr hout)
  · rename_i hin
    rw [List.mem_singleton, Prod.mk.injEq]
    exact (and_iff_right (Nat.lt_of_not_le hin)).symm

theorem vqEncode_eq (s : Schedule (Nat × UInt16)) (kv : Nat → Half) (idx : Nat → UInt16)
    (a : Nat) : g.vqEncode seqLen book s kv idx a =
      if a < seqLen * g.nKvHeads then UInt16.ofNat (g.best book kv a) else idx a := by
  unfold vqEncode
  split
  · rename_i ha
    have hgrid := le_gridThreads (seqLen * g.nKvHeads) 256 (by decide)
    refine launch_of_mem s idx (Nat.lt_of_lt_of_le ha hgrid)
      (mem_vqEncodeKernel.mpr ⟨ha, rfl, rfl⟩) ?_
    intro j _ w hw
    obtain ⟨-, rfl, h⟩ := mem_vqEncodeKernel.mp hw
    exact h
  · rename_i ha
    refine launch_of_not_mem s idx fun i _ w hw => ?_
    obtain ⟨hi, rfl, -⟩ := mem_vqEncodeKernel.mp hw
    exact ha hi

theorem mem_vqDecodeKernel {idx : Nat → UInt16} {tid a : Nat} {w : Half} :
    (a, w) ∈ g.vqDecodeKernel seqLen book idx tid ↔
      tid < seqLen * g.nKvHeads ∧ InRow g.headDim tid a ∧
        w = book ((idx tid).toNat * g.headDim + (a - tid * g.headDim)) := by
  unfold vqDecodeKernel
  dsimp only
  rw [Nat.div_add_mod']
  split
  · rename_i hout
    exact iff_of_false List.not_mem_nil fun h => absurd h.1 (Nat.not_lt.mpr hout)
  · rename_i hin
    rw [and_iff_right (Nat.lt_of_not_le hin), List.mem_map]
    constructor
    · intro h
      obtain ⟨d, hd, heq⟩ := h
      rw [Prod.mk.injEq] at heq
      obtain ⟨rfl, rfl⟩ := heq
      have hlt := List.mem_range.mp hd
      refine ⟨⟨Nat.le_add_right _ _, Nat.add_lt_add_left hlt _⟩, ?_⟩
      rw [Nat.add_sub_cancel_left]
    · intro h
      obtain ⟨hrow, rfl⟩ := h
      refine ⟨a - tid * g.headDim, List.mem_range.mpr ?_, ?_⟩
      · exact Nat.sub_lt_left_of_lt_add hrow.1 hrow.2
      · rw [Nat.add_sub_cancel' hrow.1]

theorem vqDecode_inside (s : Schedule (Nat × Half)) (idx : Nat → UInt16) (kv : Nat → Half)
    {v d : Nat} (hv : v < seqLen * g.nKvHeads) (hd : d < g.headDim) :
    g.vqDecode seqLen book s idx kv (v * g.headDim + d) =
      book ((idx v).toNat * g.headDim + d) := by
  have hgrid := le_gridThreads (seqLen * g.nKvHeads) 256 (by decide)
  have hrow : InRow g.headDim v (v * g.headDim + d) :=
    ⟨Nat.le_add_right _ _, Nat.add_lt_add_left hd _⟩
  unfold vqDecode
  refine launch_of_mem s kv (Nat.lt_of_lt_of_le hv hgrid)
    (mem_vqDecodeKernel.mpr ⟨hv, hrow, by rw [Nat.add_sub_cancel_left]⟩) ?_
  intro j _ w hw
  obtain ⟨-, hrow', rfl⟩ := mem_vqDecodeKernel.mp hw
  have hpos : 0 < g.headDim := Nat.zero_lt_of_lt hd
  have hj : j = v := by rw [← (inRow_iff hpos).mp hrow', (inRow_iff hpos).mp hrow]
  rw [hj, Nat.add_sub_cancel_left]

theorem vqDecode_outside (s : Schedule (Nat × Half)) (idx : Nat → UInt16) (kv : Nat → Half)
    {a : Nat} (ha : seqLen * g.nKvHeads * g.headDim ≤ a) :
    g.vqDecode seqLen book s idx kv a = kv a := by
  unfold vqDecode
  refine launch_of_not_mem s kv fun i _ w hw => ?_
  obtain ⟨hi, hrow, -⟩ := mem_vqDecodeKernel.mp hw
  have hnext : (i + 1) * g.headDim ≤ seqLen * g.nKvHeads * g.headDim :=
    Nat.mul_le_mul_right _ hi
  rw [Nat.succ_mul] at hnext
  exact absurd hrow.2 (Nat.not_lt.mpr (hnext.trans ha))

/-! ## Encode and decode -/

variable (g seqLen book)

/-- Each vector has become the first entry nearest to it, and nothing else has changed. -/
structure Replaced (kv kv' : Nat → Half) : Prop where
  nearest : ∀ tok < seqLen, ∀ head < g.nKvHeads, ∃ c,
    FirstNearest (fun c => sqDist (Finset.range g.headDim)
        (fun d => (kv ((tok * g.nKvHeads + head) * g.headDim + d)).val)
        (entry g.headDim (fun a => (book a).val) c)) g.codebookSize c ∧
      ∀ d < g.headDim,
        kv' ((tok * g.nKvHeads + head) * g.headDim + d) = book (c * g.headDim + d)
  others : ∀ a, seqLen * g.nKvHeads * g.headDim ≤ a → kv' a = kv a

variable {g seqLen book}

theorem vqReplace_inside (s : VqSchedule) (idx : Nat → UInt16) (kv : Nat → Half) {v d : Nat}
    (hv : v < seqLen * g.nKvHeads) (hd : d < g.headDim) :
    (g.vqReplace seqLen book s idx kv).2 (v * g.headDim + d) =
      book (g.best book kv v * g.headDim + d) := by
  unfold vqReplace
  dsimp only
  rw [vqDecode_inside s.decode _ kv hv hd, vqEncode_eq, if_pos hv, toNat_best]

theorem vqReplace_replaced (s : VqSchedule) (idx : Nat → UInt16) (kv : Nat → Half) :
    Replaced g seqLen book kv (g.vqReplace seqLen book s idx kv).2 where
  nearest tok htok head hhead := by
    have hv : tok * g.nKvHeads + head < seqLen * g.nKvHeads := digits_lt htok hhead
    exact ⟨_, best_nearest kv _, fun d hd => vqReplace_inside s idx kv hv hd⟩
  others _ ha := vqDecode_outside s.decode _ kv ha

/-- What is encoded again is an entry, and has the index of that entry. -/
theorem best_vqReplace (s : VqSchedule) (idx : Nat → UInt16) (kv : Nat → Half) {v : Nat}
    (hv : v < seqLen * g.nKvHeads) :
    g.best book (g.vqReplace seqLen book s idx kv).2 v = g.best book kv v := by
  have hsame : ∀ d ∈ Finset.range g.headDim,
      ((g.vqReplace seqLen book s idx kv).2 (v * g.headDim + d)).val =
        entry g.headDim (fun a => (book a).val) (g.best book kv v) d := by
    intro d hd
    rw [vqReplace_inside s idx kv hv (Finset.mem_range.mp hd)]
    rfl
  have hdist : (fun c => sqDist (Finset.range g.headDim)
        (fun d => ((g.vqReplace seqLen book s idx kv).2 (v * g.headDim + d)).val)
        (entry g.headDim (fun a => (book a).val) c)) =
      fun c => sqDist (Finset.range g.headDim)
        (entry g.headDim (fun a => (book a).val) (g.best book kv v))
        (entry g.headDim (fun a => (book a).val) c) := by
    funext c
    exact sqDist_congr hsame fun d _ => rfl
  refine FirstNearest.again (best_nearest kv v) ?_
  rw [← hdist]
  exact best_nearest _ v

theorem vqEncode_again (s s' : VqSchedule) (idx idx' : Nat → UInt16) (kv : Nat → Half) :
    g.vqEncode seqLen book s'.encode (g.vqReplace seqLen book s idx kv).2 idx' =
      g.vqEncode seqLen book s.encode kv idx' := by
  funext a
  rw [vqEncode_eq, vqEncode_eq]
  split
  · rename_i ha
    rw [best_vqReplace s idx kv ha]
  · rfl

theorem vqReplace_again (s s' : VqSchedule) (idx idx' : Nat → UInt16) (kv : Nat → Half) :
    (g.vqReplace seqLen book s' idx' (g.vqReplace seqLen book s idx kv).2).2 =
      (g.vqReplace seqLen book s idx kv).2 := by
  funext a
  by_cases ha : a < seqLen * g.nKvHeads * g.headDim
  · have hpos : 0 < g.headDim := Nat.pos_of_mul_pos_left (Nat.zero_lt_of_lt ha)
    have hv : a / g.headDim < seqLen * g.nKvHeads := (Nat.div_lt_iff_lt_mul hpos).mpr ha
    have hd : a % g.headDim < g.headDim := Nat.mod_lt a hpos
    rw [← Nat.div_add_mod' a g.headDim, vqReplace_inside s' idx' _ hv hd,
      best_vqReplace s idx kv hv, vqReplace_inside s idx kv hv hd]
  · exact vqDecode_outside s'.decode _ _ (Nat.le_of_not_lt ha)

/-- On K and V, whatever the indices are before and in whatever order the threads store. -/
theorem runVq_nearest (g : VqGeometry) (seqLen : Nat) (book : Side → Nat → Half)
    (s s' : Side → VqSchedule) (idx : Nat → UInt16) (x : Side → Nat → Half) :
    (∀ side, Replaced g seqLen (book side) (x side)
      ((g.runVq seqLen book s (idx, x)).2 side)) ∧
    g.runVq seqLen book s' (g.runVq seqLen book s (idx, x)) =
      g.runVq seqLen book s (idx, x) := by
  refine ⟨fun side => ?_, ?_⟩
  · cases side with
    | k => exact vqReplace_replaced (s .k) idx (x .k)
    | v => exact vqReplace_replaced (s .v) _ (x .v)
  · apply Prod.ext
    · funext a
      show g.vqEncode seqLen (book .v) (s' .v).encode _ _ a =
        g.vqEncode seqLen (book .v) (s .v).encode _ _ a
      unfold runVq
      dsimp only
      rw [vqEncode_again (s .v) (s' .v), vqEncode_eq]
      split
      · rename_i ha
        rw [vqEncode_eq, if_pos ha]
      · rename_i ha
        show g.vqEncode seqLen (book .k) (s' .k).encode _ _ a = _
        rw [vqEncode_eq, if_neg ha]
        rfl
    · funext side
      cases side with
      | k => exact vqReplace_again (s .k) (s' .k) _ _ (x .k)
      | v => exact vqReplace_again (s .v) (s' .v) _ _ (x .v)

end VqGeometry

end TruellmEngine.Cuda
