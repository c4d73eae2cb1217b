/-
  The KiVi codec (`kivi_cache.cu`, `kivi_cache.cuh`): outlier channels in full, the others in
  groups of 4-bit steps between the least and the greatest value of the group.

  Arithmetic is exact: the scale and the zero of a group are not rounded to `__half`, and a
  `__half` that lies in a byte buffer is the number that it stands for. An `int` that overflows
  has no value, and the launch has none then either.

  `outlierIdx_spec`: pass 1 selects distinct channels, so that the residuals are all the others
  (`residualChannels_eq`). `restored_within`, `restored_degenerate`: how far a residual is from
  what its group makes of it. The layout of the record is in `KiviRoundTrip`.
-/
import TruellmEngine.Cuda.VqCache
import TruellmEngine.Lib.Records
import Mathlib.Algebra.Order.Floor.Ring
import Mathlib.Data.List.GetD
import Mathlib.Data.Rat.Floor

namespace TruellmEngine.Cuda

open Lib

/-- A byte of the compressed buffer. A `__half` takes two. -/
inductive KiviByte where
  | byte (b : UInt8)
  | low (x : ℚ)
  | high (x : ℚ)
  deriving DecidableEq

namespace KiviByte

/-- What a byte of a `__half` would be as a number is not modelled. -/
def toUInt8 : KiviByte → UInt8
  | byte b => b
  | low _ | high _ => 0

def toHalf : KiviByte → KiviByte → ℚ
  | low x, high y => if x = y then x else 0
  | _, _ => 0

def ofHalf (x : ℚ) : List KiviByte := [low x, high x]

end KiviByte

/-- Parameters that `kivi_params_supported` accepts; the host wrappers return for others. -/
structure KiviParams where
  headDim : Nat
  nOutliers : Nat
  groupSize : Nat
  supported : kiviParamsSupported headDim nOutliers groupSize = true
  groupSize_lt : groupSize < 2 ^ 31

/-- `1e-6f` -/
def degenerateRange : ℚ := 8796093 / 2 ^ 43

/-- `__float2int_rn` -/
def float2intRn (x : ℚ) : Int :=
  if Int.fract x < 1 / 2 then ⌊x⌋
  else if 1 / 2 < Int.fract x then ⌊x⌋ + 1
  else if ⌊x⌋ % 2 = 0 then ⌊x⌋
  else ⌊x⌋ + 1

/-! ## The outliers -/

/-- `outlier_idx`, `outlier_mag`, `min_mag` and `min_pos`. -/
structure Slots where
  idx : Nat → UInt8
  mag : Nat → ℚ
  minMag : ℚ
  minPos : Nat

namespace Slots

def empty : Slots := ⟨fun _ => 0, fun _ => -1, -1, 0⟩

def findMin (nOut : Nat) (mag : Nat → ℚ) : ℚ × Nat :=
  (List.range' 1 (nOut - 1)).foldl (fun m i => if mag i < m.1 then (mag i, i) else m) (mag 0, 0)

/-- The slot of least magnitude goes to channel `d` if that has a greater one. -/
def offer (nOut : Nat) (x : Nat → ℚ) (s : Slots) (d : Nat) : Slots :=
  let v := |x d|
  if s.minMag < v then
    let idx := Function.update s.idx s.minPos (UInt8.ofNat d)
    let mag := Function.update s.mag s.minPos v
    let m := findMin nOut mag
    ⟨idx, mag, m.1, m.2⟩
  else s

end Slots

namespace KiviParams

variable (p : KiviParams)

def nOut : Nat := min (min p.nOutliers kiviMaxOutliers.toNat) p.headDim

def nRes : Nat := p.headDim - p.nOut

def nGroups : Nat := (p.nRes + p.groupSize - 1) / p.groupSize

/-- The sum in `n_groups` is an `int`. -/
def inRange : Bool := p.nRes + p.groupSize - 1 < 2 ^ 31

def groupStart (g : Nat) : Nat := g * p.groupSize

def groupEnd (g : Nat) : Nat := min (p.groupStart g + p.groupSize) p.nRes

/-- Pass 1: `outlier_idx`. -/
def outlierIdx (x : Nat → ℚ) : Nat → UInt8 :=
  ((List.range p.headDim).foldl (Slots.offer p.nOut x) Slots.empty).idx

/-- The channels below `head_dim` that are not marked, up to `n_res` of them. -/
def unmarked (mark : Nat → Bool) : List Nat :=
  ((List.range p.headDim).filter fun d => !mark d).take p.nRes

def isOutlier (x : Nat → ℚ) (ch : Nat) : Bool :=
  (List.range p.nOut).any fun i => (p.outlierIdx x i).toNat == ch

/-! ## The compressor -/

def outlierSection (x : Nat → ℚ) : List KiviByte :=
  (List.range p.nOut).flatMap fun i =>
    .byte (p.outlierIdx x i) :: KiviByte.ofHalf (x (p.outlierIdx x i).toNat)

/-- The channels that `residuals` is collected from. -/
def residualChannels (x : Nat → ℚ) : List Nat := p.unmarked (p.isOutlier x)

def residuals (x : Nat → ℚ) (i : Nat) : ℚ := x ((p.residualChannels x).getD i 0)

def groupMin (r : Nat → ℚ) (g : Nat) : ℚ :=
  (List.range' (p.groupStart g) (p.groupEnd g - p.groupStart g)).foldl
    (fun m i => if r i < m then r i else m) fltMax

def groupMax (r : Nat → ℚ) (g : Nat) : ℚ :=
  (List.range' (p.groupStart g) (p.groupEnd g - p.groupStart g)).foldl
    (fun m i => if m < r i then r i else m) (-fltMax)

def groupRange (r : Nat → ℚ) (g : Nat) : ℚ := p.groupMax r g - p.groupMin r g

def degenerate (r : Nat → ℚ) (g : Nat) : Bool := !decide (degenerateRange < p.groupRange r g)

def scale (r : Nat → ℚ) (g : Nat) : ℚ := if p.degenerate r g then 0 else 15 / p.groupRange r g

/-- The step that is written for the decompressor. -/
def step (r : Nat → ℚ) (g : Nat) : ℚ := if p.degenerate r g then 0 else 1 / p.scale r g

def zero (r : Nat → ℚ) (g : Nat) : ℚ :=
  if -fltMax < p.groupMin r g ∧ p.groupMin r g < fltMax then p.groupMin r g else 0

/-- The 4-bit value of a residual. -/
def quantise (r : Nat → ℚ) (g i : Nat) : Nat :=
  let q := float2intRn ((r i - p.groupMin r g) * p.scale r g)
  let q := if q < 0 then 0 else q
  let q := if 15 < q then 15 else q
  q.toNat

/-- The pair that begins at residual `i`. -/
def packed (r : Nat → ℚ) (g i : Nat) : UInt8 :=
  let q0 := p.quantise r g i
  let q1 := if i + 1 < p.groupEnd g then p.quantise r g (i + 1) else 0
  UInt8.ofNat (q1 <<< 4 ||| q0)

/-- The bytes that the pairs of a group take. -/
def packBytes (g : Nat) : Nat := (p.groupEnd g - p.groupStart g + 1) / 2

def groupSection (r : Nat → ℚ) (g : Nat) : List KiviByte :=
  ((List.range (p.packBytes g)).map fun k => .byte (p.packed r g (p.groupStart g + 2 * k))) ++
    (KiviByte.ofHalf (p.step r g) ++ KiviByte.ofHalf (p.zero r g))

/-- What the thread of a vector writes from `dst` on. -/
def record (x : Nat → ℚ) : List KiviByte :=
  p.outlierSection x ++ (List.range p.nGroups).flatMap (p.groupSection (p.residuals x))

/-! ## The decompressor -/

/-- `p`, `result` and `written`. -/
structure Unpacking where
  pos : Nat
  result : Nat → ℚ
  written : Nat → Bool

def readOutlier (src : Nat → KiviByte) (u : Unpacking) : Unpacking :=
  let ch := (src u.pos).toUInt8.toNat
  let val := (src (u.pos + 1)).toHalf (src (u.pos + 2))
  { pos := u.pos + 3
    result := if ch < p.headDim then Function.update u.result ch val else u.result
    written := if ch < p.headDim then Function.update u.written ch true else u.written }

def readOutliers (src : Nat → KiviByte) (base : Nat) : Unpacking :=
  (List.range p.nOut).foldl (fun u _ => p.readOutlier src u) ⟨base, fun _ => 0, fun _ => false⟩

/-- The step of the loop over the residuals of a group. -/
def readResidual (src : Nat → KiviByte) (resChannels : List Nat) (g pack : Nat) (scale zero : ℚ)
    (result : Nat → ℚ) (i : Nat) : Nat → ℚ :=
  let byteOff := (i - p.groupStart g) / 2
  let b := (src (pack + byteOff)).toUInt8
  let nibble := if (i - p.groupStart g) % 2 = 0 then b &&& 0x0F else b >>> 4
  let v := nibble.toNat * scale + zero
  let ch := resChannels.getD i p.headDim
  if ch < p.headDim then Function.update result ch v else result

def readGroup (src : Nat → KiviByte) (resChannels : List Nat) (u : Nat × (Nat → ℚ)) (g : Nat) :
    Nat × (Nat → ℚ) :=
  let pos := u.1 + p.packBytes g
  let scale := (src pos).toHalf (src (pos + 1))
  let zero := (src (pos + 2)).toHalf (src (pos + 3))
  (pos + 4, (List.range' (p.groupStart g) (p.groupEnd g - p.groupStart g)).foldl
    (p.readResidual src resChannels g u.1 scale zero) u.2)

/-- `result`, from the record at `base`. -/
def unpack (src : Nat → KiviByte) (base : Nat) : Nat → ℚ :=
  let u := p.readOutliers src base
  let resChannels := p.unmarked u.written
  ((List.range p.nGroups).foldl (p.readGroup src resChannels) (u.pos, u.result)).2

/-! ## The launches -/

def kiviStride : Nat :=
  (kiviCompressedBytes p.headDim p.nOutliers p.groupSize).toNat

def kiviCompressKernel (nVecs : Nat) (kv : Nat → Half) (tid : Nat) : List (Nat × KiviByte) :=
  if nVecs ≤ tid then []
  else recordStores (tid * p.kiviStride) (p.record fun d => (kv (tid * p.headDim + d)).val)

def kiviDecompressKernel (nVecs : Nat) (buf : Nat → KiviByte) (tid : Nat) : List (Nat × ℚ) :=
  if nVecs ≤ tid then []
  else recordStores (tid * p.headDim)
    ((List.range p.headDim).map (p.unpack buf (tid * p.kiviStride)))

def kiviCompress (s : Schedule (Nat × KiviByte)) (nVecs : Nat) (kv : Nat → Half)
    (buf : Nat → KiviByte) : Option (Nat → KiviByte) :=
  if nVecs = 0 then some buf
  else if !p.inRange then none
  else some (launch s (gridThreads nVecs 128) (p.kiviCompressKernel nVecs kv) buf)

def kiviDecompress (s : Schedule (Nat × ℚ)) (nVecs : Nat) (buf : Nat → KiviByte)
    (kv : Nat → ℚ) : Option (Nat → ℚ) :=
  if nVecs = 0 then some kv
  else if !p.inRange then none
  else some (launch s (gridThreads nVecs 128) (p.kiviDecompressKernel nVecs buf) kv)

/-- Both, in place, as `run_kivi` launches them. -/
def kiviReplace (s : Schedule (Nat × KiviByte)) (s' : Schedule (Nat × ℚ)) (nVecs : Nat)
    (kv : Nat → Half) (buf : Nat → KiviByte) : Option (Nat → ℚ) :=
  (p.kiviCompress s nVecs kv buf).bind fun buf' =>
    p.kiviDecompress s' nVecs buf' fun a => (kv a).val

end KiviParams

/-! ## What pass 1 selects -/

namespace Slots

theorem findMin_eq {nOut : Nat} (h : 0 < nOut) (mag : Nat → ℚ) :
    findMin nOut mag = scanNearest mag (mag 0) nOut := by
  obtain ⟨n, rfl⟩ := Nat.exists_eq_succ_of_ne_zero (Nat.pos_iff_ne_zero.mp h)
  unfold findMin scanNearest
  rw [List.range_eq_range', List.range'_succ, List.foldl_cons, if_neg (lt_irrefl (mag 0))]
  rfl

theorem findMin_spec {nOut : Nat} (h : 0 < nOut) (mag : Nat → ℚ) :
    (findMin nOut mag).1 = mag (findMin nOut mag).2 ∧
      FirstNearest mag nOut (findMin nOut mag).2 := by
  rw [findMin_eq h]
  exact scanNearest_spec h (le_refl (mag 0))

/-- What the slots hold when the channels below `d` have been offered. -/
structure Offered (nOut : Nat) (x : Nat → ℚ) (d : Nat) (s : Slots) : Prop where
  minPos_lt : s.minPos < nOut
  minMag_eq : s.minMag = s.mag s.minPos
  least : ∀ i < nOut, s.minMag ≤ s.mag i
  slot : ∀ i < nOut, s.mag i = -1 ∨ ((s.idx i).toNat < d ∧ 0 ≤ s.mag i)
  distinct : ∀ i < nOut, ∀ j < nOut, s.mag i ≠ -1 → s.mag j ≠ -1 → s.idx i = s.idx j → i = j
  unused : ((Finset.range nOut).filter fun i => s.mag i = -1).card = nOut - d

variable {nOut d : Nat} {x : Nat → ℚ} {s : Slots}

theorem offered_empty (h : 0 < nOut) : Offered nOut x 0 empty where
  minPos_lt := h
  minMag_eq := rfl
  least _ _ := le_refl _
  slot _ _ := .inl rfl
  distinct _ _ _ _ hi := absurd rfl hi
  unused := by
    have hall : ∀ i ∈ Finset.range nOut, empty.mag i = -1 := fun _ _ => rfl
    rw [Finset.filter_true_of_mem hall, Finset.card_range]
    rfl

/-- There is no unused slot when the least magnitude is one. -/
theorem Offered.unused_eq_zero (h : Offered nOut x d s) (hmin : 0 ≤ s.minMag) :
    ((Finset.range nOut).filter fun i => s.mag i = -1).card = 0 := by
  rw [Finset.card_eq_zero, Finset.filter_eq_empty_iff]
  intro i hi hunused
  have hleast := h.least i (Finset.mem_range.mp hi)
  rw [hunused] at hleast
  linarith only [hleast, hmin]

/-- A channel that takes a slot uses one that was unused, if there was one. -/
theorem Offered.unused_update (h : Offered nOut x d s) {v : ℚ} (hv : 0 ≤ v) :
    ((Finset.range nOut).filter fun i => Function.update s.mag s.minPos v i = -1).card =
      nOut - (d + 1) := by
  have herase : ((Finset.range nOut).filter fun i => Function.update s.mag s.minPos v i = -1) =
      ((Finset.range nOut).filter fun i => s.mag i = -1).erase s.minPos := by
    ext i
    rw [Finset.mem_erase, Finset.mem_filter, Finset.mem_filter]
    by_cases hi : i = s.minPos
    · subst hi
      rw [Function.update_self]
      exact iff_of_false (fun h' => by linarith only [h'.2, hv]) fun h' => h'.1 rfl
    · rw [Function.update_of_ne hi]
      exact (and_iff_right hi).symm
  rw [herase]
  rcases h.slot s.minPos h.minPos_lt with hunused | ⟨-, hused⟩
  · have hmem : s.minPos ∈ (Finset.range nOut).filter fun i => s.mag i = -1 :=
      Finset.mem_filter.mpr ⟨Finset.mem_range.mpr h.minPos_lt, hunused⟩
    rw [Finset.card_erase_of_mem hmem, h.unused]
    omega
  · rw [← h.minMag_eq] at hused
    have hnone := h.unused_eq_zero hused
    rw [Finset.erase_eq_of_notMem, hnone]
    · have hcount := h.unused
      omega
    · intro hmem
      exact absurd (Finset.card_pos.mpr ⟨_, hmem⟩) (by omega)

theorem Offered.offer (h : Offered nOut x d s) (hd : d < 256) :
    Offered nOut x (d + 1) (s.offer nOut x d) := by
  have hv : 0 ≤ |x d| := abs_nonneg (x d)
  have hpos : 0 < nOut := Nat.zero_lt_of_lt h.minPos_lt
  unfold Slots.offer
  dsimp only
  split
  · obtain ⟨hmin, hnear⟩ := findMin_spec hpos (Function.update s.mag s.minPos |x d|)
    have hidx : (UInt8.ofNat d).toNat = d := by
      rw [UInt8.toNat_ofNat']
      exact Nat.mod_eq_of_lt hd
    refine ⟨hnear.lt, hmin, fun i hi => hmin.le.trans (hnear.least i hi), ?_, ?_,
      h.unused_update hv⟩
    · intro i hi
      by_cases hi' : i = s.minPos
      · subst hi'
        dsimp only
        rw [Function.update_self, Function.update_self, hidx]
        exact .inr ⟨Nat.lt_succ_self d, hv⟩
      · dsimp only
        rw [Function.update_of_ne hi', Function.update_of_ne hi']
        exact (h.slot i hi).imp_right fun hslot => ⟨Nat.lt_succ_of_lt hslot.1, hslot.2⟩
    · -- the new channel is not in any other slot
      have hnew : ∀ i < nOut, i ≠ s.minPos → s.mag i ≠ -1 → s.idx i ≠ UInt8.ofNat d := by
        intro i hi _ hused heq
        have hlt := ((h.slot i hi).resolve_left hused).1
        rw [heq, hidx] at hlt
        exact lt_irrefl d hlt
      intro i hi j hj
      dsimp only
      by_cases hi' : i = s.minPos
      · by_cases hj' : j = s.minPos
        · intro _ _ _
          rw [hi', hj']
        · rw [hi', Function.update_self, Function.update_self, Function.update_of_ne hj',
            Function.update_of_ne hj']
          intro _ hused heq
          exact absurd heq.symm (hnew j hj hj' hused)
      · rw [Function.update_of_ne hi', Function.update_of_ne hi']
        by_cases hj' : j = s.minPos
        · rw [hj', Function.update_self, Function.update_self]
          intro hused _ heq
          exact absurd heq (hnew i hi hi' hused)
        · rw [Function.update_of_ne hj', Function.update_of_ne hj']
          exact h.distinct i hi j hj
  · rename_i hle
    have hmin : 0 ≤ s.minMag := hv.trans (not_lt.mp hle)
    refine ⟨h.minPos_lt, h.minMag_eq, h.least, fun i hi => ?_, h.distinct, ?_⟩
    · exact (h.slot i hi).imp_right fun hslot => ⟨Nat.lt_succ_of_lt hslot.1, hslot.2⟩
    · have hnone := h.unused_eq_zero hmin
      have hcount := h.unused
      omega

theorem offered_range (h : 0 < nOut) (hd : d ≤ 256) :
    Offered nOut x d ((List.range d).foldl (Slots.offer nOut x) empty) := by
  induction d with
  | zero => exact offered_empty h
  | succ d ih =>
    rw [List.range_succ, List.foldl_append]
    exact (ih (Nat.le_of_succ_le hd)).offer hd

end Slots

namespace KiviParams

variable {p : KiviParams}

theorem bounds (p : KiviParams) :
    0 < p.headDim ∧ p.headDim ≤ 128 ∧ p.nOutliers ≤ 64 ∧ p.nOutliers ≤ p.headDim ∧
      0 < p.groupSize := by
  have h := p.supported
  unfold kiviParamsSupported kiviMaxHeadDim kiviMaxOutliers at h
  simp only [Bool.and_eq_true, decide_eq_true_eq] at h
  omega

theorem nOut_eq (p : KiviParams) : p.nOut = p.nOutliers := by
  have h := p.bounds
  have hmax : kiviMaxOutliers.toNat = 64 := rfl
  unfold nOut
  omega

theorem nOut_le (p : KiviParams) : p.nOut ≤ p.headDim := Nat.min_le_right _ _

/-- The outliers are channels of the vector, and no two of them are the same. -/
theorem outlierIdx_spec (x : Nat → ℚ) :
    (∀ i < p.nOut, (p.outlierIdx x i).toNat < p.headDim) ∧
      ∀ i < p.nOut, ∀ j < p.nOut, p.outlierIdx x i = p.outlierIdx x j → i = j := by
  rcases Nat.eq_zero_or_pos p.nOut with hzero | hpos
  · rw [hzero]
    exact ⟨nofun, nofun⟩
  · have h := Slots.offered_range (x := x) hpos (p.bounds.2.1.trans (by decide))
    have hused : ∀ i < p.nOut,
        ((List.range p.headDim).foldl (Slots.offer p.nOut x) Slots.empty).mag i ≠ -1 := by
      intro i hi hunused
      have hcount := h.unused
      rw [Nat.sub_eq_zero_of_le p.nOut_le, Finset.card_eq_zero,
        Finset.filter_eq_empty_iff] at hcount
      exact hcount (Finset.mem_range.mpr hi) hunused
    refine ⟨fun i hi => ((h.slot i hi).resolve_left (hused i hi)).1, fun i hi j hj => ?_⟩
    exact h.distinct i hi j hj (hused i hi) (hused j hj)

/-- The outliers, as a set of channels. -/
def outliers (p : KiviParams) (x : Nat → ℚ) : Finset Nat :=
  (Finset.range p.headDim).filter fun ch => p.isOutlier x ch

theorem isOutlier_iff {x : Nat → ℚ} {ch : Nat} :
    p.isOutlier x ch = true ↔ ∃ i < p.nOut, (p.outlierIdx x i).toNat = ch := by
  unfold isOutlier
  simp only [List.any_eq_true, List.mem_range, beq_iff_eq]

theorem card_outliers (x : Nat → ℚ) : (p.outliers x).card = p.nOut := by
  obtain ⟨hlt, hinj⟩ := p.outlierIdx_spec x
  have himage : p.outliers x = (Finset.range p.nOut).image fun i => (p.outlierIdx x i).toNat := by
    ext ch
    unfold outliers
    rw [Finset.mem_filter, Finset.mem_image, isOutlier_iff, Finset.mem_range]
    simp only [Finset.mem_range]
    refine and_iff_right_of_imp fun h => ?_
    obtain ⟨i, hi, rfl⟩ := h
    exact hlt i hi
  rw [himage, Finset.card_image_of_injOn, Finset.card_range]
  intro i hi j hj heq
  exact hinj i (Finset.mem_range.mp hi) j (Finset.mem_range.mp hj) (UInt8.toNat_inj.mp heq)

theorem length_others (x : Nat → ℚ) :
    ((List.range p.headDim).filter fun d => !p.isOutlier x d).length = p.nRes := by
  have hsplit := List.length_eq_countP_add_countP (p.isOutlier x) (l := List.range p.headDim)
  have hcard : (List.range p.headDim).countP (fun d => decide (p.isOutlier x d = true)) =
      p.nOut := by
    rw [← card_outliers x, List.countP_eq_length_filter]
    rfl
  simp only [decide_not, Bool.decide_eq_true] at hsplit hcard
  rw [List.length_range, hcard, List.countP_eq_length_filter] at hsplit
  unfold nRes
  omega

/-- The residuals are all of the other channels. -/
theorem residualChannels_eq (x : Nat → ℚ) :
    p.residualChannels x = (List.range p.headDim).filter fun d => !p.isOutlier x d := by
  unfold residualChannels unmarked
  rw [← length_others x, List.take_length]

theorem mem_residualChannels {x : Nat → ℚ} {ch : Nat} :
    ch ∈ p.residualChannels x ↔ ch < p.headDim ∧ p.isOutlier x ch = false := by
  rw [residualChannels_eq, List.mem_filter, List.mem_range, Bool.not_eq_true']

theorem nodup_residualChannels (x : Nat → ℚ) : (p.residualChannels x).Nodup := by
  rw [residualChannels_eq]
  exact List.nodup_range.filter _

theorem length_residualChannels (x : Nat → ℚ) : (p.residualChannels x).length = p.nRes := by
  rw [residualChannels_eq]
  exact length_others x

end KiviParams

/-! ## Groups -/

theorem abs_float2intRn_sub_le (x : ℚ) : |(float2intRn x : ℚ) - x| ≤ 1 / 2 := by
  have hsplit := Int.floor_add_fract x
  have hnonneg := Int.fract_nonneg x
  have hlt := Int.fract_lt_one x
  unfold float2intRn
  rw [abs_le]
  split
  · rename_i hhalf
    constructor
    · linarith only [hsplit, hhalf]
    · linarith only [hsplit, hnonneg]
  · rename_i hhalf
    have hup : |(((⌊x⌋ + 1 : Int) : ℚ)) - x| ≤ 1 / 2 := by
      rw [Int.cast_add, Int.cast_one, abs_le]
      constructor
      · linarith only [hsplit, hlt]
      · linarith only [hsplit, not_lt.mp hhalf]
    split
    · exact abs_le.mp hup
    · rename_i hnot
      split
      · constructor
        · linarith only [hsplit, hlt, not_lt.mp hnot]
        · linarith only [hsplit, hnonneg]
      · exact abs_le.mp hup

theorem float2intRn_mem {x : ℚ} (hlow : 0 ≤ x) (hhigh : x ≤ 15) :
    0 ≤ float2intRn x ∧ float2intRn x ≤ 15 := by
  have h := abs_le.mp (abs_float2intRn_sub_le x)
  constructor
  · have hcast : (-1 : ℚ) < float2intRn x := by linarith only [h.1, hlow]
    have hint : (-1 : Int) < float2intRn x := by exact_mod_cast hcast
    omega
  · have hcast : (float2intRn x : ℚ) < 16 := by linarith only [h.2, hhigh]
    have hint : float2intRn x < 16 := by exact_mod_cast hcast
    omega

/-- A loop for the least value is below all of them, and at one of them if there is one below
    the start. -/
theorem foldl_least (r : Nat → ℚ) (l : List Nat) (far : ℚ) :
    (l.foldl (fun m i => if r i < m then r i else m) far ≤ far) ∧
      (∀ i ∈ l, l.foldl (fun m i => if r i < m then r i else m) far ≤ r i) ∧
      (l.foldl (fun m i => if r i < m then r i else m) far = far ∨
        ∃ i ∈ l, l.foldl (fun m i => if r i < m then r i else m) far = r i) := by
  induction l generalizing far with
  | nil => exact ⟨le_refl far, nofun, .inl rfl⟩
  | cons i l ih =>
    rw [List.foldl_cons]
    obtain ⟨hfar, hall, hsome⟩ := ih (if r i < far then r i else far)
    have hfirst : (if r i < far then r i else far) ≤ r i := by
      split
      · exact le_refl _
      · rename_i hle
        exact not_lt.mp hle
    have hstart : (if r i < far then r i else far) ≤ far := by
      split
      · rename_i hlt
        exact hlt.le
      · exact le_refl _
    refine ⟨hfar.trans hstart, fun j hj => ?_, ?_⟩
    · rcases List.mem_cons.mp hj with rfl | hj'
      · exact hfar.trans hfirst
      · exact hall j hj'
    · rcases hsome with hsome | ⟨j, hj, hsome⟩
      · rw [hsome]
        split
        · exact .inr ⟨i, List.mem_cons_self, rfl⟩
        · exact .inl rfl
      · exact .inr ⟨j, List.mem_cons_of_mem i hj, hsome⟩

theorem foldl_greatest (r : Nat → ℚ) (l : List Nat) (far : ℚ) :
    l.foldl (fun m i => if m < r i then r i else m) (-far) =
      -l.foldl (fun m i => if -r i < m then -r i else m) far := by
  induction l generalizing far with
  | nil => rfl
  | cons i l ih =>
    rw [List.foldl_cons, List.foldl_cons, ← ih]
    congr 1
    simp only [neg_lt (a := far)]
    split
    · rw [neg_neg]
    · rfl

namespace KiviParams

variable {p : KiviParams} {r : Nat → ℚ} {g i : Nat}

/-- The residuals of a group. -/
def InGroup (p : KiviParams) (g i : Nat) : Prop := p.groupStart g ≤ i ∧ i < p.groupEnd g

theorem mem_range'_iff_inGroup :
    i ∈ List.range' (p.groupStart g) (p.groupEnd g - p.groupStart g) ↔ p.InGroup g i := by
  rw [List.mem_range'_1]
  unfold InGroup
  omega

theorem groupMin_le (hi : p.InGroup g i) : p.groupMin r g ≤ r i :=
  (foldl_least r _ fltMax).2.1 i (mem_range'_iff_inGroup.mpr hi)

theorem le_groupMax (hi : p.InGroup g i) : r i ≤ p.groupMax r g := by
  have h := (foldl_least (fun i => -r i) _ fltMax).2.1 i (mem_range'_iff_inGroup.mpr hi)
  unfold groupMax
  rw [foldl_greatest]
  exact le_neg.mp h

theorem halfMax_lt_fltMax : halfMax < fltMax := by norm_num [halfMax, fltMax]

/-- The zero of a group with a residual is its least value. -/
theorem zero_eq (hr : ∀ i, |r i| ≤ halfMax) (hi : p.InGroup g i) :
    p.zero r g = p.groupMin r g := by
  have hfar : p.groupMin r g < fltMax :=
    (groupMin_le hi).trans_lt ((abs_le.mp (hr i)).2.trans_lt halfMax_lt_fltMax)
  have hnear : -fltMax < p.groupMin r g := by
    rcases (foldl_least r _ fltMax).2.2 with h | ⟨j, -, h⟩
    · exact absurd h hfar.ne
    · refine lt_of_lt_of_eq ?_ h.symm
      exact (neg_lt_neg halfMax_lt_fltMax).trans_le (abs_le.mp (hr j)).1
  unfold zero
  exact if_pos ⟨hnear, hfar⟩

/-- What the decompressor makes of a residual. -/
def restored (p : KiviParams) (r : Nat → ℚ) (g i : Nat) : ℚ :=
  p.quantise r g i * p.step r g + p.zero r g

theorem restored_degenerate (hr : ∀ i, |r i| ≤ halfMax) (hi : p.InGroup g i)
    (hdeg : p.degenerate r g = true) : |p.restored r g i - r i| ≤ 1 / 10 ^ 6 := by
  have hrange : p.groupRange r g ≤ degenerateRange := by
    unfold degenerate at hdeg
    simpa using hdeg
  have hsmall : degenerateRange ≤ 1 / 10 ^ 6 := by norm_num [degenerateRange]
  have hlow := groupMin_le (r := r) hi
  have hhigh := le_groupMax (r := r) hi
  unfold groupRange at hrange
  unfold restored step
  rw [if_pos hdeg, mul_zero, zero_add, zero_eq hr hi, abs_le]
  constructor
  · linarith only [hrange, hsmall, hhigh]
  · linarith only [hrange, hsmall, hlow, hhigh]

theorem restored_within (hr : ∀ i, |r i| ≤ halfMax) (hi : p.InGroup g i)
    (hdeg : p.degenerate r g = false) :
    |p.restored r g i - r i| ≤ p.groupRange r g / 15 / 2 := by
  have hrange : 0 < p.groupRange r g := by
    have hlt : degenerateRange < p.groupRange r g := by
      unfold degenerate at hdeg
      simpa using hdeg
    refine lt_trans ?_ hlt
    norm_num [degenerateRange]
  have hscale : p.scale r g = 15 / p.groupRange r g := by
    unfold scale
    rw [hdeg]
    rfl
  have hstep : p.step r g = p.groupRange r g / 15 := by
    unfold step
    rw [hdeg, hscale, one_div_div]
    rfl
  have hlow := groupMin_le (r := r) hi
  have hhigh := le_groupMax (r := r) hi
  have hy := float2intRn_mem (x := (r i - p.groupMin r g) * p.scale r g) ?_ ?_
  · have hq : (p.quantise r g i : ℚ) = float2intRn ((r i - p.groupMin r g) * p.scale r g) := by
      unfold quantise
      dsimp only
      rw [if_neg (not_lt.mpr hy.1), if_neg (not_lt.mpr hy.2)]
      exact_mod_cast Int.toNat_of_nonneg hy.1
    have hround := abs_float2intRn_sub_le ((r i - p.groupMin r g) * p.scale r g)
    have herror : p.restored r g i - r i = (p.quantise r g i -
        (r i - p.groupMin r g) * p.scale r g) * (p.groupRange r g / 15) := by
      unfold restored
      rw [hstep, zero_eq hr hi, hscale]
      field_simp
      ring
    rw [herror, abs_mul, abs_of_pos (div_pos hrange (by norm_num)), hq]
    calc _ ≤ 1 / 2 * (p.groupRange r g / 15) := by gcongr
      _ = p.groupRange r g / 15 / 2 := by ring
  · rw [hscale]
    exact mul_nonneg (sub_nonneg.mpr hlow) (div_pos (by norm_num) hrange).le
  · rw [hscale, mul_div_assoc', div_le_iff₀ hrange]
    unfold groupRange
    linarith only [hhigh]

end KiviParams

end TruellmEngine.Cuda
