/-
  Where the forward passes find the KV elements: the megakernel (`megakernel.cu`, cells
  `[head][slot][dim]`), the paged write (`reshape_and_cache`, cells
  `[block][head][dim][offset]`) and the paged read (`paged_attention`).

  All three take the pointers of a layer from the allocator and address `__half` elements
  from there, two bytes each, whatever `use_fp8_kv` says; the allocator counts one byte an
  element when it is on. `Pool.kvCellsSound_iff` says on which pools every element has bytes
  of its own inside the pool.

  Pointers and addresses are offsets from `kv_cache_dev_`. Products of dimensions wrap where
  the kernels compute them in `int`.
-/
import TruellmEngine.Cuda.PoolLayout
import TruellmEngine.Lib.Placement

namespace TruellmEngine.Cuda

open Lib

inductive Side where
  | k
  | v
  deriving DecidableEq, Repr

instance : Fintype Side where
  elems := {.k, .v}
  complete := by
    intro side
    cases side with
    | k => decide
    | v => decide

/-- A pool that the constructor of `CudaAllocator` accepts: it has blocks, and `cudaMalloc`
    did not fail, so its size is one of a piece of memory. -/
structure Pool extends Geometry where
  maxNumBlocks_pos : 0 < maxNumBlocks
  poolBytes_lt : toGeometry.poolBytes < 2 ^ 63

/-- An element of the cache: a dimension of a slot of a KV head, on the K or the V side. -/
@[ext]
structure Elem (g : Geometry) where
  layer : Fin g.numLayers
  side : Side
  head : Fin g.numKvHeads
  slot : Fin (g.maxNumBlocks * g.blockSize)
  dim : Fin g.headSize

/-- An `int64_t` result. -/
def toLong (x : Int) : Int := x.bmod (2 ^ 64)

namespace Geometry

/-- The number of slots, as an `int`: `mk_kv_cap_`. -/
def kvCacheCapacity (g : Geometry) : Int := toInt (g.maxNumBlocks * g.blockSize : Nat)

def layerPtr (g : Geometry) (layer : Nat) : Side → Nat
  | .k => g.kvLayerKPtr layer
  | .v => g.kvLayerVPtr layer

/-! ## The three addressings -/

/-- `h * kv_cache_capacity * head_dim + kv_pos * head_dim`, and the element in the row. -/
def megakernelIndex (g : Geometry) (h kvPos d : Nat) : Int :=
  toInt (toInt (h * g.kvCacheCapacity) * g.headSize) + toInt (toInt kvPos * g.headSize) + d

def megakernelAddr (g : Geometry) (x : Elem g) : Int :=
  g.layerPtr x.layer x.side + 2 * g.megakernelIndex x.head x.slot x.dim

/-- The entry of `get_device_slot_mapping` for a token in block `b` at offset `off`. -/
def slotMapping (g : Geometry) (b off : Nat) : Int := toInt (toInt (b * g.blockSize : Nat) + off)

/-- `block_stride` of `reshape_and_cache`. -/
def blockStride (g : Geometry) : Int := toLong (g.numKvHeads * g.headSize * g.blockSize : Nat)

/-- `num_total_blocks`: half of the first dimension `n_blk * 2` of the cache. -/
def numTotalBlocks (g : Geometry) : Int := (toInt (2 * g.maxNumBlocks : Nat)).tdiv 2

def kIdx (g : Geometry) (slot : Int) (head elem : Nat) : Int :=
  toLong (slot.tdiv g.blockSize * g.blockStride + head * g.headSize * g.blockSize
    + elem * g.blockSize + slot.tmod g.blockSize)

/-- `reshape_and_cache`: a negative slot is skipped. -/
def pagedWriteAddr (g : Geometry) (x : Elem g) : Option Int :=
  let slot := g.slotMapping (x.slot / g.blockSize) (x.slot % g.blockSize)
  if slot < 0 then none
  else
    match x.side with
    | .k => some (g.kvLayerKvPtr x.layer + 2 * g.kIdx slot x.head x.dim)
    | .v =>
      some (g.kvLayerKvPtr x.layer
        + 2 * toLong (toLong (g.numTotalBlocks * g.blockStride) + g.kIdx slot x.head x.dim))

/-- `k_block` (or `v_block`) of `paged_attention`, at `d * BLOCK_SIZE + t`. -/
def pagedReadAddr (g : Geometry) (x : Elem g) : Int :=
  g.layerPtr x.layer x.side
    + 2 * (toLong ((x.slot / g.blockSize : Nat) * g.numKvHeads * g.headSize * g.blockSize)
      + toInt (x.head * g.headSize * g.blockSize)
      + toInt (x.dim * g.blockSize + (x.slot % g.blockSize : Nat)))

/-- The two bytes of every element are in the pool and apart from those of the others, in
    each of the three addressings. -/
structure KvCellsSound (g : Geometry) : Prop where
  megakernel : Placed (fun x : Elem g => some (g.megakernelAddr x)) 2 g.poolBytes
  pagedWrite : Placed g.pagedWriteAddr 2 g.poolBytes
  pagedRead : Placed (fun x : Elem g => some (g.pagedReadAddr x)) 2 g.poolBytes

/-- There are no elements. -/
def NoElems (g : Geometry) : Prop :=
  g.numLayers = 0 ∨ g.numKvHeads = 0 ∨ g.headSize = 0 ∨ g.blockSize = 0

/-- Half-precision elements, and no `int` of the allocator or of the kernels wraps. -/
structure Fits (g : Geometry) : Prop where
  halfs : g.fp8Enabled = false
  block : g.blockBytes < 2 ^ 31
  blocks : 2 * g.maxNumBlocks < 2 ^ 31
  heads : (g.numKvHeads - 1) * (g.maxNumBlocks * g.blockSize * g.headSize) < 2 ^ 31
  slots : (g.maxNumBlocks * g.blockSize - 1) * g.headSize < 2 ^ 31

end Geometry

/-! ## No wraps -/

theorem toLong_eq {x : Int} (hlow : -2 ^ 63 ≤ x) (hhigh : x < 2 ^ 63) : toLong x = x := by
  refine Int.bmod_eq_of_le ?_ ?_
  · omega
  · omega

theorem toLong_of_lt {x : Nat} (h : x < 2 ^ 63) : toLong x = x := toLong_eq (by omega) (by omega)

theorem toInt_bounds (x : Int) : -2 ^ 31 ≤ toInt x ∧ toInt x < 2 ^ 31 := by
  have hlow := Int.le_bmod (x := x) (m := 2 ^ 32) (by decide)
  have hhigh := Int.bmod_lt (x := x) (m := 2 ^ 32) (by decide)
  unfold toInt
  omega

/-- An `int` that comes out of a value between 2^31 and 2^32 is negative. -/
theorem toInt_neg {x : Nat} (hlow : 2 ^ 31 ≤ x) (hhigh : x < 2 ^ 32) : toInt x = x - 2 ^ 32 := by
  have hshift : toInt x = ((x : Int) - 2 ^ 32).bmod (2 ^ 32) := by
    unfold toInt
    exact (Int.sub_bmod_right (x : Int) (2 ^ 32)).symm
  rw [hshift]
  refine Int.bmod_eq_of_le ?_ ?_
  · omega
  · omega

theorem toInt_mul_toInt (a b : Int) : toInt (toInt a * b) = toInt (a * b) :=
  Int.bmod_mul_bmod

theorem toInt_add_toInt (a b : Int) : toInt (toInt a + b) = toInt (a + b) :=
  Int.bmod_add_bmod

/-- Among the multiples of a stride the first one from 2^31 on is negative as an `int`. -/
theorem exists_toInt_neg {n s : Nat} (hs : s < 2 ^ 32) (hn : 2 ^ 31 ≤ n * s) :
    ∃ k ≤ n, toInt (k * s : Nat) < 0 := by
  have hpos : 0 < s := by
    by_contra hno
    have hzero : s = 0 := by omega
    rw [hzero, Nat.mul_zero] at hn
    omega
  have hex : ∃ k, 2 ^ 31 ≤ k * s := ⟨n, hn⟩
  classical
  let k := Nat.find hex
  have hk : 2 ^ 31 ≤ k * s := Nat.find_spec hex
  refine ⟨k, Nat.find_min' hex hn, ?_⟩
  have hlt : k * s < 2 ^ 32 := by
    rcases Nat.lt_or_ge 1 k with h1 | h1
    · have hprev : (k - 1) * s < 2 ^ 31 := by
        have hmin := Nat.find_min hex (show k - 1 < Nat.find hex by omega)
        omega
      have hsucc : k * s = (k - 1) * s + s := by
        rw [← Nat.succ_mul]
        congr 1
        omega
      have hsmall : s ≤ (k - 1) * s := Nat.le_mul_of_pos_left s (by omega)
      omega
    · have hle : k * s ≤ 1 * s := Nat.mul_le_mul_right s h1
      omega
  rw [toInt_neg hk hlt]
  omega

/-! ## Room for all elements -/

def Elem.equivProd (g : Geometry) : Elem g ≃ Fin g.numLayers × Side × Fin g.numKvHeads ×
    Fin (g.maxNumBlocks * g.blockSize) × Fin g.headSize where
  toFun x := (x.layer, x.side, x.head, x.slot, x.dim)
  invFun y := ⟨y.1, y.2.1, y.2.2.1, y.2.2.2.1, y.2.2.2.2⟩
  left_inv _ := rfl
  right_inv _ := rfl

instance (g : Geometry) : Fintype (Elem g) := Fintype.ofEquiv _ (Elem.equivProd g).symm

namespace Geometry

/-- The elements of one side of one layer. -/
def sideElems (g : Geometry) : Nat :=
  g.numKvHeads * (g.maxNumBlocks * g.blockSize) * g.headSize

theorem card_elem (g : Geometry) : Fintype.card (Elem g) = 2 * g.numLayers * g.sideElems := by
  rw [Fintype.card_congr (Elem.equivProd g)]
  have hside : Fintype.card Side = 2 := rfl
  simp only [Fintype.card_prod, Fintype.card_fin, hside, sideElems]
  ring

theorem blocks_mul_blockBytes (g : Geometry) :
    g.maxNumBlocks * g.blockBytes = 2 * g.numLayers * g.sideElems * g.elemSize := by
  unfold blockBytes sideElems
  ring

end Geometry

/-- The size of the pool is the product of its factors modulo 2^64, whatever the sign of
    `bytes_per_block`. -/
theorem Geometry.poolBytes_emod (g : Geometry) :
    (g.poolBytes : Int) = g.maxNumBlocks * g.bytesPerBlock % 2 ^ 64 := by
  have hcast : (toSizeT g.bytesPerBlock : Int) = g.bytesPerBlock % 2 ^ 64 := by
    unfold toSizeT
    omega
  have hpool : (g.poolBytes : Int) = g.maxNumBlocks * (g.bytesPerBlock % 2 ^ 64) % 2 ^ 64 := by
    unfold poolBytes
    rw [hcast]
    unfold toSizeT
    omega
  rw [hpool, Int.mul_emod, Int.emod_emod, ← Int.mul_emod]

theorem Pool.bytesPerBlock_bounds (p : Pool) :
    0 ≤ p.bytesPerBlock ∧ p.bytesPerBlock < 2 ^ 31 := by
  obtain ⟨hlow, hhigh⟩ : -2 ^ 31 ≤ p.bytesPerBlock ∧ p.bytesPerBlock < 2 ^ 31 :=
    toInt_bounds p.blockBytes
  refine ⟨?_, hhigh⟩
  by_contra hneg
  have hblocks := p.maxNumBlocks_pos
  have hcount := p.maxNumBlocks_lt
  have hbelow : (p.maxNumBlocks : Int) * p.bytesPerBlock < 0 :=
    Int.mul_neg_of_pos_of_neg (by omega) (by omega)
  have habove : -2 ^ 62 ≤ (p.maxNumBlocks : Int) * p.bytesPerBlock := by
    have hle : (p.maxNumBlocks : Int) * -p.bytesPerBlock ≤ 2 ^ 31 * 2 ^ 31 :=
      Int.mul_le_mul (by omega) (by omega) (by omega) (by omega)
    rw [Int.mul_neg] at hle
    omega
  have hpool := p.poolBytes_emod
  have hsize := p.poolBytes_lt
  omega

theorem Pool.poolBytes_eq (p : Pool) : (p.poolBytes : Int) = p.maxNumBlocks * p.bytesPerBlock := by
  obtain ⟨hlow, hhigh⟩ := p.bytesPerBlock_bounds
  have hcount := p.maxNumBlocks_lt
  rw [p.poolBytes_emod]
  apply Int.emod_eq_of_lt
  · exact Int.mul_nonneg (by omega) hlow
  · have hle : (p.maxNumBlocks : Int) * p.bytesPerBlock ≤ 2 ^ 31 * 2 ^ 31 :=
      Int.mul_le_mul (by omega) (by omega) hlow (by omega)
    omega

/-- Where all elements have bytes of their own in the pool, the pool has two bytes for each,
    so that they are halfs and the `int` product behind the pool's size does not wrap. -/
theorem Pool.room (p : Pool) (helems : ¬ p.NoElems)
    (h : Placed (fun x : Elem p.toGeometry => some (p.pagedReadAddr x)) 2 p.poolBytes) :
    p.fp8Enabled = false ∧ p.blockBytes < 2 ^ 31 := by
  have hroom : 2 * p.numLayers * p.sideElems * 2 ≤ p.poolBytes := by
    rw [← p.card_elem]
    exact h.card_mul_le
  have hpool := p.poolBytes_eq
  have hbytes := p.blocks_mul_blockBytes
  have hblocks := p.maxNumBlocks_pos
  obtain ⟨hlow, hhigh⟩ := p.bytesPerBlock_bounds
  have hpos : 0 < p.blockBytes := by
    unfold Geometry.NoElems at helems
    unfold Geometry.blockBytes Geometry.elemSize
    simp only [Nat.pos_iff_ne_zero, ne_eq, Nat.mul_eq_zero]
    split
    · omega
    · omega
  have hmul : (p.maxNumBlocks : Int) * (2 * p.blockBytes) ≤
      p.maxNumBlocks * (p.elemSize * p.bytesPerBlock) := by
    calc (p.maxNumBlocks : Int) * (2 * p.blockBytes)
        = p.elemSize * (2 * p.numLayers * p.sideElems * 2 : Nat) := by
          have hcast : ((p.maxNumBlocks * p.blockBytes : Nat) : Int) =
            (2 * p.numLayers * p.sideElems * p.elemSize : Nat) := congrArg Nat.cast hbytes
          push_cast at hcast ⊢
          linarith
      _ ≤ p.elemSize * (p.maxNumBlocks * p.bytesPerBlock) := by
          apply Int.mul_le_mul_of_nonneg_left
          · omega
          · omega
      _ = p.maxNumBlocks * (p.elemSize * p.bytesPerBlock) := by ring
  have hle : (2 * p.blockBytes : Int) ≤ p.elemSize * p.bytesPerBlock :=
    Int.le_of_mul_le_mul_left hmul (by omega)
  cases hfp8 : p.fp8Enabled with
  | false =>
    rw [Geometry.elemSize, hfp8] at hle
    refine ⟨rfl, ?_⟩
    simp at hle
    omega
  | true =>
    -- one byte an element: half of what the elements need
    rw [Geometry.elemSize, hfp8] at hle
    have hsmall : p.blockBytes < 2 ^ 31 := by
      simp at hle
      omega
    have hsame : p.bytesPerBlock = p.blockBytes := Geometry.toInt_of_lt hsmall
    simp at hle
    omega

/-! ## What a wrap does -/

namespace Geometry

variable {g : Geometry}

theorem sidePerLayer_le (g : Geometry) (hL : 0 < g.numLayers) (hhalf : g.fp8Enabled = false) :
    4 * (g.numKvHeads * g.headSize * g.blockSize) ≤ g.blockBytes := by
  have helem : g.elemSize = 2 := by
    unfold elemSize
    rw [hhalf]
    rfl
  calc 4 * (g.numKvHeads * g.headSize * g.blockSize)
      ≤ g.numLayers * (4 * (g.numKvHeads * g.headSize * g.blockSize)) :=
        Nat.le_mul_of_pos_left _ hL
    _ = g.blockBytes := by
        unfold blockBytes
        rw [helem]
        ring

theorem kvLayerKvPtr_zero (g : Geometry) : g.kvLayerKvPtr 0 = 0 := by
  unfold kvLayerKvPtr
  simp [toSizeT]

/-- In the first layer, the element 0 of a row is as far from the pool's start as its row. -/
theorem megakernelAddr_first (x : Elem g) (hl : x.layer.val = 0) (hk : x.side = .k)
    (hd : x.dim.val = 0) :
    g.megakernelAddr x = 2 * (toInt (x.head * (g.maxNumBlocks * g.blockSize * g.headSize) : Nat)
      + toInt (x.slot * g.headSize : Nat)) := by
  unfold megakernelAddr megakernelIndex layerPtr kvLayerKPtr kvCacheCapacity
  rw [hl, hk, hd]
  simp only [kvLayerKvPtr_zero]
  have hhead : toInt (toInt (x.head * toInt (g.maxNumBlocks * g.blockSize : Nat)) * g.headSize) =
      toInt (x.head * (g.maxNumBlocks * g.blockSize * g.headSize) : Nat) := by
    rw [toInt_mul_toInt, Int.mul_comm (x.head : Int), Int.mul_assoc, toInt_mul_toInt]
    congr 1
    push_cast
    ring
  rw [hhead, toInt_mul_toInt]
  push_cast
  ring

theorem slots_lt (h : g.KvCellsSound) (hL : 0 < g.numLayers) (hkv : 0 < g.numKvHeads)
    (hhd : 0 < g.headSize) (hbs : 0 < g.maxNumBlocks * g.blockSize) (hd : g.headSize < 2 ^ 31) :
    (g.maxNumBlocks * g.blockSize - 1) * g.headSize < 2 ^ 31 := by
  by_contra hge
  obtain ⟨k, hk, hneg⟩ := exists_toInt_neg (n := g.maxNumBlocks * g.blockSize - 1)
    (s := g.headSize) (by omega) (by omega)
  let x : Elem g := ⟨⟨0, hL⟩, .k, ⟨0, hkv⟩, ⟨k, by omega⟩, ⟨0, hhd⟩⟩
  have haddr : g.megakernelAddr x = 2 * toInt (k * g.headSize : Nat) := by
    rw [megakernelAddr_first x rfl rfl rfl, Nat.zero_mul]
    exact congrArg (2 * ·) (Int.zero_add _)
  have hin := h.megakernel.inside x _ rfl
  omega

theorem heads_lt (h : g.KvCellsSound) (hL : 0 < g.numLayers) (hkv : 0 < g.numKvHeads)
    (hhd : 0 < g.headSize) (hbs : 0 < g.maxNumBlocks * g.blockSize)
    (hrow : g.maxNumBlocks * g.blockSize * g.headSize < 2 ^ 32) :
    (g.numKvHeads - 1) * (g.maxNumBlocks * g.blockSize * g.headSize) < 2 ^ 31 := by
  by_contra hge
  obtain ⟨k, hk, hneg⟩ := exists_toInt_neg hrow (n := g.numKvHeads - 1) (by omega)
  let x : Elem g := ⟨⟨0, hL⟩, .k, ⟨k, by omega⟩, ⟨0, hbs⟩, ⟨0, hhd⟩⟩
  have haddr : g.megakernelAddr x =
      2 * toInt (k * (g.maxNumBlocks * g.blockSize * g.headSize) : Nat) := by
    rw [megakernelAddr_first x rfl rfl rfl, Nat.zero_mul]
    exact congrArg (2 * ·) (Int.add_zero _)
  have hin := h.megakernel.inside x _ rfl
  omega

theorem blocks_lt (h : g.KvCellsSound) (hL : 0 < g.numLayers) (hkv : 0 < g.numKvHeads)
    (hhd : 0 < g.headSize) (hslots : 0 < g.maxNumBlocks * g.blockSize)
    (hstride : g.numKvHeads * g.headSize * g.blockSize < 2 ^ 31) :
    2 * g.maxNumBlocks < 2 ^ 31 := by
  by_contra hge
  let x : Elem g := ⟨⟨0, hL⟩, .v, ⟨0, hkv⟩, ⟨0, hslots⟩, ⟨0, hhd⟩⟩
  have hcount := g.maxNumBlocks_lt
  have hbs : 0 < g.blockSize := Nat.pos_of_mul_pos_left hslots
  have hblocks : g.numTotalBlocks = g.maxNumBlocks - 2 ^ 31 := by
    unfold numTotalBlocks
    rw [toInt_neg (by omega) (by omega)]
    have htwice : ((2 * g.maxNumBlocks : Nat) : Int) - 2 ^ 32 = 2 * (g.maxNumBlocks - 2 ^ 31) := by
      push_cast
      ring
    rw [htwice]
    exact Int.mul_tdiv_cancel_left _ (by decide)
  have hwhole : g.blockStride = (g.numKvHeads * g.headSize * g.blockSize : Nat) :=
    toLong_of_lt (by omega)
  have hpos : 0 < g.numKvHeads * g.headSize * g.blockSize :=
    Nat.mul_pos (Nat.mul_pos hkv hhd) hbs
  have hbelow : g.numTotalBlocks * g.blockStride < 0 :=
    Int.mul_neg_of_neg_of_pos (by omega) (by omega)
  have habove : -2 ^ 62 ≤ g.numTotalBlocks * g.blockStride := by
    have hle : -g.numTotalBlocks * g.blockStride ≤ 2 ^ 31 * 2 ^ 31 :=
      Int.mul_le_mul (by omega) (by omega) (by omega) (by omega)
    rw [Int.neg_mul] at hle
    omega
  have hV : toLong (g.numTotalBlocks * g.blockStride) = g.numTotalBlocks * g.blockStride :=
    toLong_eq (by omega) (by omega)
  have haddr : g.pagedWriteAddr x = some (2 * (g.numTotalBlocks * g.blockStride)) := by
    have hslot : g.slotMapping (x.slot / g.blockSize) (x.slot % g.blockSize) = 0 := by
      simp [x, slotMapping, toInt]
    have hidx : g.kIdx 0 0 0 = 0 := by
      simp [kIdx, toLong]
    unfold pagedWriteAddr
    simp only [hslot, Int.lt_irrefl, if_false, x]
    rw [hidx, hV, Int.add_zero, hV, kvLayerKvPtr_zero]
    exact congrArg some (Int.zero_add _)
  have hneg : 2 * (g.numTotalBlocks * g.blockStride) < 0 :=
    Int.mul_neg_of_pos_of_neg (by decide) hbelow
  exact absurd (h.pagedWrite.inside x _ haddr).1 (Int.not_le.mpr hneg)

end Geometry

/-! ## The layouts without wraps -/

def Side.digit : Side → Nat
  | .k => 0
  | .v => 1

theorem Side.digit_lt (side : Side) : side.digit < 2 := by
  cases side with
  | k => decide
  | v => decide

theorem Side.digit_injective : Function.Injective Side.digit := by
  intro a b h
  cases a with
  | k =>
    cases b with
    | k => rfl
    | v => cases h
  | v =>
    cases b with
    | k => cases h
    | v => rfl

namespace Geometry

variable {g : Geometry}

/-- `[layer][side][head][slot][dim]`, with the last one innermost. -/
def megakernelNumber (g : Geometry) (x : Elem g) : Nat :=
  (((x.layer * 2 + x.side.digit) * g.numKvHeads + x.head) * (g.maxNumBlocks * g.blockSize)
    + x.slot) * g.headSize + x.dim

/-- `[layer][side][block][head][dim][offset]`, with the last one innermost. -/
def pagedNumber (g : Geometry) (x : Elem g) : Nat :=
  ((((x.layer * 2 + x.side.digit) * g.maxNumBlocks + x.slot / g.blockSize) * g.numKvHeads
    + x.head) * g.headSize + x.dim) * g.blockSize + x.slot % g.blockSize

theorem megakernelNumber_injective : Function.Injective g.megakernelNumber := by
  intro x y h
  obtain ⟨h, hdim⟩ := digits_inj x.dim.isLt y.dim.isLt h
  obtain ⟨h, hslot⟩ := digits_inj x.slot.isLt y.slot.isLt h
  obtain ⟨h, hhead⟩ := digits_inj x.head.isLt y.head.isLt h
  obtain ⟨hlayer, hside⟩ := digits_inj x.side.digit_lt y.side.digit_lt h
  exact Elem.ext (Fin.ext hlayer) (Side.digit_injective hside) (Fin.ext hhead) (Fin.ext hslot)
    (Fin.ext hdim)

theorem megakernelNumber_lt (x : Elem g) :
    g.megakernelNumber x <
      g.numLayers * 2 * g.numKvHeads * (g.maxNumBlocks * g.blockSize) * g.headSize :=
  digits_lt (digits_lt (digits_lt (digits_lt x.layer.isLt x.side.digit_lt) x.head.isLt)
    x.slot.isLt) x.dim.isLt

theorem blockSize_pos (x : Elem g) : 0 < g.blockSize :=
  Nat.pos_of_mul_pos_left (Nat.zero_lt_of_lt x.slot.isLt)

theorem block_lt (x : Elem g) : x.slot.val / g.blockSize < g.maxNumBlocks :=
  (Nat.div_lt_iff_lt_mul (blockSize_pos x)).mpr x.slot.isLt

theorem pagedNumber_injective : Function.Injective g.pagedNumber := by
  intro x y h
  have hbs := blockSize_pos x
  obtain ⟨h, hoff⟩ := digits_inj (Nat.mod_lt _ hbs) (Nat.mod_lt _ hbs) h
  obtain ⟨h, hdim⟩ := digits_inj x.dim.isLt y.dim.isLt h
  obtain ⟨h, hhead⟩ := digits_inj x.head.isLt y.head.isLt h
  obtain ⟨h, hblock⟩ := digits_inj (block_lt x) (block_lt y) h
  obtain ⟨hlayer, hside⟩ := digits_inj x.side.digit_lt y.side.digit_lt h
  have hslot : x.slot.val = y.slot.val := by
    rw [← Nat.div_add_mod x.slot.val g.blockSize, ← Nat.div_add_mod y.slot.val g.blockSize,
      hblock, hoff]
  exact Elem.ext (Fin.ext hlayer) (Side.digit_injective hside) (Fin.ext hhead) (Fin.ext hslot)
    (Fin.ext hdim)

theorem pagedNumber_lt (x : Elem g) :
    g.pagedNumber x <
      g.numLayers * 2 * g.maxNumBlocks * g.numKvHeads * g.headSize * g.blockSize :=
  digits_lt (digits_lt (digits_lt (digits_lt (digits_lt x.layer.isLt x.side.digit_lt)
    (block_lt x)) x.head.isLt) x.dim.isLt) (Nat.mod_lt _ (blockSize_pos x))

theorem sideBytes_eq (hhalf : g.fp8Enabled = false) :
    g.maxNumBlocks * g.cellBytes = 2 * g.sideElems := by
  unfold cellBytes sideElems elemSize
  rw [hhalf]
  simp only [Bool.false_eq_true, if_false]
  ring

/-- The pointers of a layer, where nothing wraps. -/
theorem layerPtr_eq (hhalf : g.fp8Enabled = false) (hT : g.blockBytes < 2 ^ 31) {layer : Nat}
    (hl : layer < g.numLayers) (side : Side) :
    g.layerPtr layer side = 2 * ((layer * 2 + side.digit) * g.sideElems) := by
  obtain ⟨hk, hv⟩ := kvLayerPtr_eq hT hl
  cases side with
  | k =>
    unfold layerPtr Side.digit
    rw [hk, sideBytes_eq hhalf]
    ring
  | v =>
    unfold layerPtr Side.digit
    rw [hv, sideBytes_eq hhalf]
    ring

end Geometry

/-! ## The three addressings, where nothing wraps -/

namespace Geometry

variable {g : Geometry}

theorem Fits.row_lt (hf : g.Fits) (x : Elem g) : x.slot * g.headSize < 2 ^ 31 := by
  have hslots := hf.slots
  have hle : x.slot * g.headSize ≤ (g.maxNumBlocks * g.blockSize - 1) * g.headSize := by
    apply Nat.mul_le_mul_right
    have hx := x.slot.isLt
    omega
  omega

theorem Fits.slot_lt (hf : g.Fits) (x : Elem g) : x.slot.val < 2 ^ 31 := by
  have hrow := hf.row_lt x
  have hle : x.slot.val ≤ x.slot * g.headSize :=
    Nat.le_mul_of_pos_right _ (Nat.zero_lt_of_lt x.dim.isLt)
  omega

theorem Fits.megakernelAddr_eq (hf : g.Fits) (x : Elem g) :
    g.megakernelAddr x = (2 * g.megakernelNumber x : Nat) := by
  have hhead : toInt (toInt (x.head * g.kvCacheCapacity) * g.headSize) =
      (x.head * (g.maxNumBlocks * g.blockSize * g.headSize) : Nat) := by
    have hle : x.head * (g.maxNumBlocks * g.blockSize * g.headSize) ≤
        (g.numKvHeads - 1) * (g.maxNumBlocks * g.blockSize * g.headSize) := by
      apply Nat.mul_le_mul_right
      have hx := x.head.isLt
      omega
    have hheads := hf.heads
    rw [← toInt_of_lt (x := x.head * (g.maxNumBlocks * g.blockSize * g.headSize)) (by omega)]
    unfold kvCacheCapacity
    rw [toInt_mul_toInt, Int.mul_comm (x.head : Int), Int.mul_assoc, toInt_mul_toInt]
    congr 1
    push_cast
    ring
  have hslot : toInt (toInt (x.slot : Nat) * g.headSize) = (x.slot * g.headSize : Nat) := by
    rw [toInt_mul_toInt]
    exact_mod_cast toInt_of_lt (hf.row_lt x)
  unfold megakernelAddr megakernelIndex
  rw [layerPtr_eq hf.halfs hf.block x.layer.isLt, hhead, hslot]
  unfold megakernelNumber sideElems
  push_cast
  ring

/-- The elements of a block on one side of a layer are too few for an `int` to wrap. -/
theorem Fits.stride_lt (hf : g.Fits) (x : Elem g) :
    g.numKvHeads * g.headSize * g.blockSize < 2 ^ 29 := by
  have hle := sidePerLayer_le g (Nat.zero_lt_of_lt x.layer.isLt) hf.halfs
  have hT := hf.block
  omega

theorem Fits.headOffset_lt (hf : g.Fits) (x : Elem g) :
    x.head * g.headSize * g.blockSize + (x.dim * g.blockSize + x.slot % g.blockSize) < 2 ^ 29 := by
  have hstride := hf.stride_lt x
  have hlt : (x.head * g.headSize + x.dim) * g.blockSize + x.slot % g.blockSize <
      g.numKvHeads * g.headSize * g.blockSize :=
    digits_lt (digits_lt x.head.isLt x.dim.isLt) (Nat.mod_lt _ (blockSize_pos x))
  rw [Nat.add_mul] at hlt
  omega

theorem Fits.blockOffset_lt (hf : g.Fits) (x : Elem g) :
    x.slot / g.blockSize * (g.numKvHeads * g.headSize * g.blockSize) < 2 ^ 60 := by
  have hb := block_lt x
  have hcount := g.maxNumBlocks_lt
  have hstride := hf.stride_lt x
  have hle : x.slot / g.blockSize * (g.numKvHeads * g.headSize * g.blockSize) ≤
      2 ^ 31 * (2 ^ 29 - 1) :=
    Nat.mul_le_mul (by omega) (by omega)
  omega

theorem Fits.pagedReadAddr_eq (hf : g.Fits) (x : Elem g) :
    g.pagedReadAddr x = (2 * g.pagedNumber x : Nat) := by
  have hoff := hf.headOffset_lt x
  have hblock : toLong ((x.slot / g.blockSize : Nat) * g.numKvHeads * g.headSize * g.blockSize) =
      (x.slot / g.blockSize * (g.numKvHeads * g.headSize * g.blockSize) : Nat) := by
    have hlt := hf.blockOffset_lt x
    rw [← toLong_of_lt (x := x.slot / g.blockSize * (g.numKvHeads * g.headSize * g.blockSize))
      (by omega)]
    congr 1
    push_cast
    ring
  have hhead : toInt (x.head * g.headSize * g.blockSize) =
      (x.head * g.headSize * g.blockSize : Nat) := by
    exact_mod_cast toInt_of_lt (x := x.head * g.headSize * g.blockSize) (by omega)
  have hdim : toInt (x.dim * g.blockSize + (x.slot % g.blockSize : Nat)) =
      (x.dim * g.blockSize + x.slot % g.blockSize : Nat) := by
    exact_mod_cast toInt_of_lt (x := x.dim * g.blockSize + x.slot % g.blockSize) (by omega)
  unfold pagedReadAddr
  rw [layerPtr_eq hf.halfs hf.block x.layer.isLt, hblock, hhead, hdim]
  unfold pagedNumber sideElems
  push_cast
  ring

/-- The write finds the element where the read does. -/
theorem Fits.pagedWriteAddr_eq (hf : g.Fits) (x : Elem g) :
    g.pagedWriteAddr x = some ((2 * g.pagedNumber x : Nat) : Int) := by
  have hslot : g.slotMapping (x.slot / g.blockSize) (x.slot % g.blockSize) = (x.slot : Nat) := by
    have hsplit := Nat.div_add_mod' x.slot.val g.blockSize
    unfold slotMapping
    rw [toInt_add_toInt, ← toInt_of_lt (hf.slot_lt x)]
    exact congrArg toInt (by exact_mod_cast hsplit)
  have hstride : g.blockStride = (g.numKvHeads * g.headSize * g.blockSize : Nat) := by
    have hlt := hf.stride_lt x
    exact toLong_of_lt (by omega)
  have hblock := hf.blockOffset_lt x
  have hend : g.maxNumBlocks * (g.numKvHeads * g.headSize * g.blockSize)
      + (x.slot / g.blockSize * (g.numKvHeads * g.headSize * g.blockSize)
        + (x.head * g.headSize * g.blockSize + (x.dim * g.blockSize + x.slot % g.blockSize)))
      < 2 ^ 63 := by
    have hpool : g.maxNumBlocks * (g.numKvHeads * g.headSize * g.blockSize) ≤ 2 ^ 31 * 2 ^ 29 :=
      Nat.mul_le_mul g.maxNumBlocks_lt.le (hf.stride_lt x).le
    have hoff := hf.headOffset_lt x
    omega
  have hidx : g.kIdx (x.slot : Nat) x.head x.dim =
      (x.slot / g.blockSize * (g.numKvHeads * g.headSize * g.blockSize)
        + (x.head * g.headSize * g.blockSize +
          (x.dim * g.blockSize + x.slot % g.blockSize)) : Nat) := by
    rw [← toLong_of_lt (x := x.slot / g.blockSize * (g.numKvHeads * g.headSize * g.blockSize)
        + (x.head * g.headSize * g.blockSize + (x.dim * g.blockSize + x.slot % g.blockSize)))
      (Nat.lt_of_le_of_lt (Nat.le_add_left _ _) hend)]
    unfold kIdx
    rw [hstride]
    apply congrArg toLong
    rw [← Int.ofNat_tdiv, ← Int.ofNat_tmod]
    push_cast
    ring
  have hblocks : g.numTotalBlocks = g.maxNumBlocks := by
    unfold numTotalBlocks
    rw [toInt_of_lt hf.blocks, Nat.cast_mul]
    exact Int.mul_tdiv_cancel_left _ (by decide)
  have hV : toLong (g.numTotalBlocks * g.blockStride) =
      (g.maxNumBlocks * (g.numKvHeads * g.headSize * g.blockSize) : Nat) := by
    rw [hblocks, hstride, ← Nat.cast_mul]
    exact toLong_of_lt (Nat.lt_of_le_of_lt (Nat.le_add_right _ _) hend)
  have hnonneg : ¬ ((x.slot : Nat) : Int) < 0 := by omega
  have hptr := layerPtr_eq hf.halfs hf.block x.layer.isLt .k
  unfold layerPtr kvLayerKPtr at hptr
  unfold pagedWriteAddr
  simp only [hslot, hnonneg, if_false, hidx, hV, hptr]
  cases hside : x.side with
  | k =>
    unfold pagedNumber sideElems
    rw [hside]
    apply congrArg some
    push_cast
    ring
  | v =>
    unfold pagedNumber sideElems
    rw [hside]
    apply congrArg some
    rw [← Nat.cast_add, toLong_of_lt hend]
    unfold Side.digit
    push_cast
    ring

theorem not_noElems (h : ¬ g.NoElems) :
    0 < g.numLayers ∧ 0 < g.numKvHeads ∧ 0 < g.headSize ∧ 0 < g.blockSize := by
  unfold NoElems at h
  omega

theorem NoElems.false (h : g.NoElems) (x : Elem g) : False := by
  have hL := Nat.zero_lt_of_lt x.layer.isLt
  have hkv := Nat.zero_lt_of_lt x.head.isLt
  have hhd := Nat.zero_lt_of_lt x.dim.isLt
  have hbs := blockSize_pos x
  unfold NoElems at h
  omega

theorem kvCellsSound_of_noElems (h : g.NoElems) : g.KvCellsSound := by
  constructor
  · exact ⟨fun x => (h.false x).elim, fun x => (h.false x).elim⟩
  · exact ⟨fun x => (h.false x).elim, fun x => (h.false x).elim⟩
  · exact ⟨fun x => (h.false x).elim, fun x => (h.false x).elim⟩

end Geometry

theorem Pool.poolBytes_of_fits (p : Pool) (hf : p.Fits) :
    p.poolBytes = 2 * (p.numLayers * 2 * p.sideElems) := by
  have hpool := p.poolBytes_eq
  have hbytes : p.bytesPerBlock = p.blockBytes := Geometry.toInt_of_lt hf.block
  have hhalf : p.elemSize = 2 := by
    unfold Geometry.elemSize
    rw [hf.halfs]
    rfl
  have hall := p.blocks_mul_blockBytes
  rw [hbytes] at hpool
  have heq : p.poolBytes = p.maxNumBlocks * p.blockBytes := by exact_mod_cast hpool
  rw [heq, hall, hhalf]
  ring

theorem Pool.kvCellsSound_of_fits (p : Pool) (hf : p.Fits) : p.KvCellsSound := by
  have hpool := p.poolBytes_of_fits hf
  have hmegakernel : 2 * (p.numLayers * 2 * p.numKvHeads * (p.maxNumBlocks * p.blockSize)
      * p.headSize) ≤ p.poolBytes := by
    rw [hpool]
    unfold Geometry.sideElems
    apply le_of_eq
    ring
  have hpaged : 2 * (p.numLayers * 2 * p.maxNumBlocks * p.numKvHeads * p.headSize * p.blockSize)
      ≤ p.poolBytes := by
    rw [hpool]
    unfold Geometry.sideElems
    apply le_of_eq
    ring
  constructor
  · exact placed_of_index (fun x => congrArg some (hf.megakernelAddr_eq x))
      Geometry.megakernelNumber_injective Geometry.megakernelNumber_lt hmegakernel
  · exact placed_of_index hf.pagedWriteAddr_eq
      Geometry.pagedNumber_injective Geometry.pagedNumber_lt hpaged
  · exact placed_of_index (fun x => congrArg some (hf.pagedReadAddr_eq x))
      Geometry.pagedNumber_injective Geometry.pagedNumber_lt hpaged

theorem Pool.fits_of_sound (p : Pool) (helems : ¬ p.NoElems) (h : p.KvCellsSound) : p.Fits := by
  obtain ⟨hhalf, hT⟩ := p.room helems h.pagedRead
  obtain ⟨hL, hkv, hhd, hbs⟩ := Geometry.not_noElems helems
  have hcap : 0 < p.maxNumBlocks * p.blockSize := Nat.mul_pos p.maxNumBlocks_pos hbs
  have hstride := p.sidePerLayer_le hL hhalf
  have hhead : p.headSize ≤ p.numKvHeads * p.headSize * p.blockSize :=
    calc p.headSize ≤ p.numKvHeads * p.headSize := Nat.le_mul_of_pos_left _ hkv
      _ ≤ p.numKvHeads * p.headSize * p.blockSize := Nat.le_mul_of_pos_right _ hbs
  have hslots := Geometry.slots_lt h hL hkv hhd hcap (by omega)
  have hrow : p.maxNumBlocks * p.blockSize * p.headSize < 2 ^ 32 := by
    rw [Nat.sub_mul, Nat.one_mul] at hslots
    omega
  exact ⟨hhalf, hT, Geometry.blocks_lt h hL hkv hhd hcap (by omega),
    Geometry.heads_lt h hL hkv hhd hcap hrow, hslots⟩

/-- The KV elements have bytes of their own, inside the pool, exactly where there are none or
    they are halfs and no `int` wraps: with `use_fp8_kv` the pool has half of the bytes that
    the kernels address. -/
theorem Pool.kvCellsSound_iff (p : Pool) : p.KvCellsSound ↔ p.NoElems ∨ p.Fits := by
  constructor
  · intro h
    by_cases helems : p.NoElems
    · exact Or.inl helems
    · exact Or.inr (p.fits_of_sound helems h)
  · intro h
    rcases h with helems | hfits
    · exact Geometry.kvCellsSound_of_noElems helems
    · exact p.kvCellsSound_of_fits hfits

/-- The usual pool with `use_fp8_kv` on. -/
def fp8Pool : Pool where
  toGeometry := { Geometry.usual with fp8Enabled := true }
  maxNumBlocks_pos := by decide
  poolBytes_lt := by decide

/-- The K elements of head 4 in layer 0 are where its V elements of head 0 are. -/
theorem fp8Pool_not_sound : ¬ fp8Pool.KvCellsSound := by
  intro h
  let x : Elem fp8Pool.toGeometry :=
    ⟨⟨0, by decide⟩, .k, ⟨4, by decide⟩, ⟨0, by decide⟩, ⟨0, by decide⟩⟩
  let y : Elem fp8Pool.toGeometry :=
    ⟨⟨0, by decide⟩, .v, ⟨0, by decide⟩, ⟨0, by decide⟩, ⟨0, by decide⟩⟩
  have hne : x ≠ y := fun heq => Side.noConfusion (congrArg Elem.side heq)
  have hsame : fp8Pool.megakernelAddr x = fp8Pool.megakernelAddr y := by decide +kernel
  have hapart := h.megakernel.apart x y _ _ hne rfl rfl
  omega

end TruellmEngine.Cuda
