/-
  The scratch buffers of the forward passes: their sizes at load time
  (`alloc_megakernel_buffers`, `alloc_scratch_buffers`), and what a launch touches of them
  (`run_forward_megakernel` with `megakernel.cu`, `run_forward` with `paged_attention_v2.cu`).

  An index that does not fit an `int` counts as outside of the buffer: the arithmetic of the
  kernel is not defined there. `megakernelWithin_iff` and `pagedWithin_iff` put the pieces of
  a launch together to a few inequalities. The copies of block tables are in `SlotMapping`.
-/
import TruellmEngine.Cuda.CapturedTensors

namespace TruellmEngine.Cuda

open Lib

/-- What is touched of a buffer in one go, in elements or in bytes. The greatest `int` on the
    way there is `index`. -/
structure Piece where
  start : Int
  len : Nat
  index : Nat

def Piece.Inside (size : Nat) (q : Piece) : Prop :=
  q.index < 2 ^ 31 ∧ (q.len = 0 ∨ 0 ≤ q.start ∧ q.start + q.len ≤ size)

instance (size : Nat) (q : Piece) : Decidable (q.Inside size) :=
  inferInstanceAs (Decidable (_ ∧ _))

/-- The dimensions of the model, and what is configured. -/
structure Dims where
  nLayers : Nat
  nHeads : Nat
  headDim : Nat
  hiddenSize : Nat
  ffnHiddenSize : Nat
  nCtxTrain : Nat
  contextSize : Nat
  megakernelSaveAttn : Bool
  megakernelSaveHidden : Bool
  nLayers_pos : 0 < nLayers
  nHeads_pos : 0 < nHeads
  hiddenSize_pos : 0 < hiddenSize

/-- What the sizes of the buffers are made of. -/
structure Scratch extends Dims where
  blockSize : Nat
  numTotalBlocks : Nat
  blockSize_pos : 0 < blockSize

namespace Scratch

variable (m : Scratch) (p : Pass)

def mkSeqCap : Nat := m.contextSize

def mkKvCap : Nat := m.numTotalBlocks * m.blockSize

def v2MaxPartitions : Nat := (m.nCtxTrain + 32 * m.blockSize - 1) / (32 * m.blockSize)

/-! ## The megakernel

The two halves of `act_buf` change places after every layer. -/

def ping (layer : Nat) : Nat := if layer % 2 = 0 then 0 else p.seqLen * m.hiddenSize

def pong (layer : Nat) : Nat := if layer % 2 = 0 then p.seqLen * m.hiddenSize else 0

/-- `width` halves of the row of each token, from `offset` on. -/
def rows (base offset width : Nat) : List Piece :=
  (List.range p.seqLen).map fun tok =>
    ⟨(base + tok * m.hiddenSize + offset : Nat), width, tok * m.hiddenSize⟩

/-- A layer: the copy and its norm, Q, the output of the heads, the output projection, and the
    hidden state of the FFN. -/
def layerPieces (layer : Nat) : List Piece :=
  ⟨m.pong p layer, p.seqLen * m.hiddenSize, p.seqLen * m.hiddenSize⟩ ::
    m.rows p (m.pong p layer) 0 m.hiddenSize ++
    m.rows p (m.ping p layer) 0 (m.nHeads * m.headDim) ++
    (List.range m.nHeads).flatMap (fun h => m.rows p (m.pong p layer) (h * m.headDim) m.headDim) ++
    m.rows p (m.ping p layer) 0 m.hiddenSize ++
    m.rows p (m.pong p layer) 0 m.ffnHiddenSize

/-- `act_buf`. The last norm is that of token `seq_len - 1`. -/
def actPieces : List Piece :=
  m.rows p 0 0 m.hiddenSize ++ (List.range m.nLayers).flatMap (m.layerPieces p) ++
    [⟨m.ping p m.nLayers + ((p.seqLen : Int) - 1) * m.hiddenSize, m.hiddenSize,
      (p.seqLen - 1) * m.hiddenSize⟩]

/-- `softmax_buf`, in every layer. -/
def softmaxPieces : List Piece :=
  (List.range p.seqLen).flatMap fun tok => (List.range m.nHeads).map fun h =>
    ⟨((h * p.seqLen + tok) * p.kvSeqLen : Nat), p.kvSeqLen, (h * p.seqLen + tok) * p.kvSeqLen⟩

/-- `attn_weight_out` -/
def attnPieces : List Piece :=
  if m.megakernelSaveAttn then
    (List.range m.nLayers).flatMap fun layer => (List.range p.seqLen).flatMap fun tok =>
      (List.range m.nHeads).map fun h =>
        let row := (layer * m.nHeads + h) * p.seqLen + tok
        ⟨(row * p.kvSeqLen : Nat), p.kvSeqLen, row * p.kvSeqLen⟩
  else []

/-- `hidden_state_out` -/
def hiddenPieces : List Piece :=
  if m.megakernelSaveHidden then
    let n := p.seqLen * m.hiddenSize
    ⟨0, n, n⟩ :: (List.range m.nLayers).map fun layer =>
      ⟨((layer + 1) * n : Nat), n, (layer + 1) * n + (n - 1)⟩
  else []

/-- The launch, with the copy of the tokens and the reset of the mask. -/
structure MegakernelWithin : Prop where
  seqLen : p.seqLen ≤ m.mkSeqCap
  kvSeqLen : p.kvSeqLen ≤ m.mkKvCap
  inputIds : Piece.Inside m.mkSeqCap ⟨0, p.seqLen, 0⟩
  attnMask : Piece.Inside m.mkKvCap ⟨0, p.kvSeqLen, 0⟩
  act : ∀ q ∈ m.actPieces p, q.Inside (2 * m.mkSeqCap * m.hiddenSize)
  softmax : ∀ q ∈ m.softmaxPieces p, q.Inside (m.nHeads * m.mkSeqCap * m.mkKvCap)
  attn : ∀ q ∈ m.attnPieces p, q.Inside (m.nLayers * m.nHeads * m.mkSeqCap * m.mkKvCap)
  hidden : ∀ q ∈ m.hiddenPieces p, q.Inside ((m.nLayers + 1) * m.mkSeqCap * m.hiddenSize)

/-- The widest row of a token. -/
def rowWidth : Nat := max m.hiddenSize (max (m.nHeads * m.headDim) m.ffnHiddenSize)

/-- There is a token, the last row fits behind those before it, and no index overflows. -/
structure MegakernelFits : Prop where
  seqLen_pos : 0 < p.seqLen
  rows : p.seqLen * m.hiddenSize + (p.seqLen - 1) * m.hiddenSize + m.rowWidth ≤
    2 * m.mkSeqCap * m.hiddenSize
  act : p.seqLen * m.hiddenSize < 2 ^ 31
  softmax : (m.nHeads * p.seqLen - 1) * p.kvSeqLen < 2 ^ 31
  attn : m.megakernelSaveAttn = true →
    (m.nLayers * m.nHeads * p.seqLen - 1) * p.kvSeqLen < 2 ^ 31
  hidden : m.megakernelSaveHidden = true →
    (m.nLayers + 1) * (p.seqLen * m.hiddenSize) ≤ 2 ^ 31

/-! ## The legacy path

`paged_attention_v2` has instances for a head of 128 elements only, in `__half` or `float`. -/

/-- `n_part`, as the engine counts the partitions. -/
def nPart (maxCtx : Nat) : Nat := (maxCtx + 32 * m.blockSize - 1) / (32 * m.blockSize)

/-- `num_partitions`, as the kernels count them. -/
def numPartitions (maxCtx : Nat) : Nat := (maxCtx / m.blockSize + 32 - 1) / 32

/-- The first pass takes blocks of 16 cells, and does nothing for a partition without one. -/
def busyPartitions (maxCtx : Nat) : Nat :=
  min (m.numPartitions maxCtx) (((maxCtx + 16 - 1) / 16 + 32 - 1) / 32)

/-- `sizeof(scalar_t)` of the two passes. -/
def pass1Size : Nat := if m.headDim = 128 ∧ m.blockSize = 16 then 2 else 4

def pass2Size : Nat := if m.headDim = 128 then 2 else 4

/-- A row of `width` for each of the first `parts` partitions of a head. -/
def partitionRows (maxCtx parts width : Nat) : List Piece :=
  (List.range m.nHeads).flatMap fun head => (List.range parts).map fun part =>
    ⟨((head * m.numPartitions maxCtx + part) * width : Nat), width, 0⟩

/-- `exp_sums` and `max_logits`. -/
def partialPieces (maxCtx : Nat) : List Piece :=
  m.partitionRows maxCtx (m.busyPartitions maxCtx) 1 ++
    m.partitionRows maxCtx (m.numPartitions maxCtx) 1

/-- `tmp_out`, in bytes. -/
def tmpPieces (maxCtx : Nat) : List Piece :=
  m.partitionRows maxCtx (m.busyPartitions maxCtx) (128 * m.pass1Size) ++
    m.partitionRows maxCtx (m.numPartitions maxCtx) (128 * m.pass2Size)

/-- `out`, in bytes. -/
def outPieces : List Piece :=
  (List.range m.nHeads).map fun head =>
    ⟨(head * (128 * m.pass2Size) : Nat), 128 * m.pass2Size, 0⟩

/-- The launch of `paged_attention_v2`. -/
structure PagedV2Within (maxCtx : Nat) : Prop where
  partitions : m.nPart maxCtx ≤ m.v2MaxPartitions
  partials : ∀ q ∈ m.partialPieces maxCtx, q.Inside (m.nHeads * m.v2MaxPartitions)
  tmpOut : ∀ q ∈ m.tmpPieces maxCtx, q.Inside (m.nHeads * m.v2MaxPartitions * m.headDim * 2)
  out : ∀ q ∈ m.outPieces, q.Inside (m.nHeads * m.headDim * 2)

/-- Short contexts are for `paged_attention_v1`, which writes the rows of `out` as they are. -/
def PagedWithin (maxCtx : Nat) : Prop := 32 < maxCtx / m.blockSize → m.PagedV2Within maxCtx

/-- The context is one of the training contexts, rounded up, and the heads are as long as
    those of the kernels, in `__half` unless there is room for twice the partials. -/
def PagedFits (maxCtx : Nat) : Prop :=
  maxCtx / m.blockSize ≤ 32 ∨
    (maxCtx ≤ 32 * m.blockSize * m.v2MaxPartitions ∧
      (256 ≤ m.headDim ∨ m.headDim = 128 ∧ (m.blockSize = 16 ∨
        2 * ((m.nHeads - 1) * m.numPartitions maxCtx + m.busyPartitions maxCtx) ≤
          m.nHeads * m.v2MaxPartitions)))

variable {m p}

theorem mem_rows {base offset width : Nat} {q : Piece} :
    q ∈ m.rows p base offset width ↔ ∃ tok < p.seqLen,
      q = ⟨(base + tok * m.hiddenSize + offset : Nat), width, tok * m.hiddenSize⟩ := by
  unfold rows
  rw [List.mem_map]
  constructor
  · intro h
    obtain ⟨tok, htok, rfl⟩ := h
    exact ⟨tok, List.mem_range.mp htok, rfl⟩
  · intro h
    obtain ⟨tok, htok, rfl⟩ := h
    exact ⟨tok, List.mem_range.mpr htok, rfl⟩

/-- The last row decides. -/
theorem rows_inside_iff {base offset width size : Nat} (hpos : 0 < p.seqLen)
    (hact : p.seqLen * m.hiddenSize < 2 ^ 31) :
    (∀ q ∈ m.rows p base offset width, q.Inside size) ↔
      width = 0 ∨ base + (p.seqLen - 1) * m.hiddenSize + offset + width ≤ size := by
  constructor
  · intro h
    refine (h _ (mem_rows.mpr ⟨p.seqLen - 1, Nat.sub_lt hpos Nat.one_pos, rfl⟩)).2.imp_right ?_
    intro hlast
    have hend : ((base + (p.seqLen - 1) * m.hiddenSize + offset : Nat) : Int) + width ≤ size :=
      hlast.2
    omega
  · intro h q hq
    obtain ⟨tok, htok, rfl⟩ := mem_rows.mp hq
    have hrow : tok * m.hiddenSize ≤ (p.seqLen - 1) * m.hiddenSize :=
      Nat.mul_le_mul_right _ (by omega)
    have hall : (p.seqLen - 1) * m.hiddenSize ≤ p.seqLen * m.hiddenSize :=
      Nat.mul_le_mul_right _ (Nat.sub_le _ _)
    refine ⟨by show tok * m.hiddenSize < 2 ^ 31; omega, h.imp_right fun h => ?_⟩
    refine ⟨Int.natCast_nonneg _, ?_⟩
    show ((base + tok * m.hiddenSize + offset : Nat) : Int) + width ≤ size
    omega

/-- A row of scores. -/
theorem scores_inside {n row : Nat} (hrow : row < n) (hint : (n - 1) * p.kvSeqLen < 2 ^ 31)
    {size : Nat} (hsize : n * p.kvSeqLen ≤ size) :
    Piece.Inside size ⟨(row * p.kvSeqLen : Nat), p.kvSeqLen, row * p.kvSeqLen⟩ := by
  have hindex : row * p.kvSeqLen ≤ (n - 1) * p.kvSeqLen := Nat.mul_le_mul_right _ (by omega)
  have hend : (row + 1) * p.kvSeqLen ≤ n * p.kvSeqLen := Nat.mul_le_mul_right _ hrow
  rw [Nat.add_mul, Nat.one_mul] at hend
  refine ⟨by show row * p.kvSeqLen < 2 ^ 31; omega, .inr ⟨Int.natCast_nonneg _, ?_⟩⟩
  show ((row * p.kvSeqLen : Nat) : Int) + p.kvSeqLen ≤ size
  omega

namespace MegakernelFits

variable (h : m.MegakernelFits p)

include h

theorem seqLen_le : p.seqLen ≤ m.mkSeqCap := by
  have hwidth : m.hiddenSize ≤ m.rowWidth := Nat.le_max_left _ _
  have hlast : (p.seqLen - 1) * m.hiddenSize + m.hiddenSize = p.seqLen * m.hiddenSize := by
    rw [← Nat.succ_mul, Nat.succ_eq_add_one, Nat.sub_add_cancel h.seqLen_pos]
  have hrows := h.rows
  refine Nat.le_of_mul_le_mul_right ?_ m.hiddenSize_pos
  rw [Nat.mul_assoc] at hrows
  omega

theorem act_inside : ∀ q ∈ m.actPieces p, q.Inside (2 * m.mkSeqCap * m.hiddenSize) := by
  have hrows := h.rows
  have hhidden : m.hiddenSize ≤ m.rowWidth := Nat.le_max_left _ _
  have hheads : m.nHeads * m.headDim ≤ m.rowWidth :=
    (Nat.le_max_left _ _).trans (Nat.le_max_right _ _)
  have hffn : m.ffnHiddenSize ≤ m.rowWidth := (Nat.le_max_right _ _).trans (Nat.le_max_right _ _)
  have hlast : (p.seqLen - 1) * m.hiddenSize + m.hiddenSize = p.seqLen * m.hiddenSize := by
    rw [← Nat.succ_mul, Nat.succ_eq_add_one, Nat.sub_add_cancel h.seqLen_pos]
  have hping : ∀ layer, m.ping p layer ≤ p.seqLen * m.hiddenSize := by
    intro layer
    unfold ping
    split
    · exact Nat.zero_le _
    · exact le_rfl
  have hpong : ∀ layer, m.pong p layer ≤ p.seqLen * m.hiddenSize := by
    intro layer
    unfold pong
    split
    · exact le_rfl
    · exact Nat.zero_le _
  have hwide : ∀ {base offset width}, base ≤ p.seqLen * m.hiddenSize →
      offset + width ≤ m.rowWidth → ∀ q ∈ m.rows p base offset width,
        q.Inside (2 * m.mkSeqCap * m.hiddenSize) :=
    fun hbase hwidth => (rows_inside_iff h.seqLen_pos h.act).mpr (.inr (by omega))
  intro q hq
  rcases List.mem_append.mp hq with hq | hq
  · rcases List.mem_append.mp hq with hq | hq
    · exact hwide (Nat.zero_le _) (by omega) q hq
    · obtain ⟨layer, -, hq⟩ := List.mem_flatMap.mp hq
      unfold layerPieces at hq
      simp only [List.cons_append, List.mem_cons, List.mem_append, List.mem_flatMap,
        List.mem_range] at hq
      have hpong' := hpong layer
      rcases hq with rfl | (((hq | hq) | ⟨head, hhead, hq⟩) | hq) | hq
      · refine ⟨h.act, .inr ⟨Int.natCast_nonneg _, ?_⟩⟩
        show (m.pong p layer : Int) + (p.seqLen * m.hiddenSize : Nat) ≤
          (2 * m.mkSeqCap * m.hiddenSize : Nat)
        omega
      · exact hwide hpong' (by omega) q hq
      · exact hwide (hping layer) (by omega) q hq
      · have hend : (head + 1) * m.headDim ≤ m.nHeads * m.headDim :=
          Nat.mul_le_mul_right _ hhead
        rw [Nat.add_mul, Nat.one_mul] at hend
        exact hwide hpong' (by omega) q hq
      · exact hwide (hping layer) (by omega) q hq
      · exact hwide hpong' (by omega) q hq
  · rw [List.mem_singleton.mp hq]
    have hact := h.act
    have hping' := hping m.nLayers
    have hcast : ((p.seqLen : Int) - 1) * m.hiddenSize = ((p.seqLen - 1) * m.hiddenSize : Nat) := by
      rw [Nat.cast_mul, Nat.cast_sub h.seqLen_pos, Nat.cast_one]
    refine ⟨by show (p.seqLen - 1) * m.hiddenSize < 2 ^ 31; omega, .inr ?_⟩
    show 0 ≤ (m.ping p m.nLayers : Int) + ((p.seqLen : Int) - 1) * m.hiddenSize ∧
      (m.ping p m.nLayers : Int) + ((p.seqLen : Int) - 1) * m.hiddenSize + m.hiddenSize ≤
        (2 * m.mkSeqCap * m.hiddenSize : Nat)
    rw [hcast]
    omega

theorem softmax_inside {kvCap : Nat} (hkv : p.kvSeqLen ≤ kvCap) :
    ∀ q ∈ m.softmaxPieces p, q.Inside (m.nHeads * m.mkSeqCap * kvCap) := by
  intro q hq
  obtain ⟨tok, htok, hq⟩ := List.mem_flatMap.mp hq
  obtain ⟨head, hhead, rfl⟩ := List.mem_map.mp hq
  apply scores_inside (digits_lt (List.mem_range.mp hhead) (List.mem_range.mp htok)) h.softmax
  exact Nat.mul_le_mul (Nat.mul_le_mul_left _ h.seqLen_le) hkv

theorem attn_inside {kvCap : Nat} (hkv : p.kvSeqLen ≤ kvCap) :
    ∀ q ∈ m.attnPieces p, q.Inside (m.nLayers * m.nHeads * m.mkSeqCap * kvCap) := by
  intro q hq
  unfold attnPieces at hq
  split at hq
  · rename_i hsave
    obtain ⟨layer, hlayer, hq⟩ := List.mem_flatMap.mp hq
    obtain ⟨tok, htok, hq⟩ := List.mem_flatMap.mp hq
    obtain ⟨head, hhead, rfl⟩ := List.mem_map.mp hq
    have hrow := digits_lt (digits_lt (List.mem_range.mp hlayer) (List.mem_range.mp hhead))
      (List.mem_range.mp htok)
    apply scores_inside hrow (h.attn hsave)
    exact Nat.mul_le_mul (Nat.mul_le_mul_left _ h.seqLen_le) hkv
  · cases hq

theorem hidden_inside :
    ∀ q ∈ m.hiddenPieces p, q.Inside ((m.nLayers + 1) * m.mkSeqCap * m.hiddenSize) := by
  intro q hq
  unfold hiddenPieces at hq
  split at hq
  · rename_i hsave
    have hint := h.hidden hsave
    have hact := h.act
    have hpos : 0 < p.seqLen * m.hiddenSize := Nat.mul_pos h.seqLen_pos m.hiddenSize_pos
    have hsize : (m.nLayers + 1) * (p.seqLen * m.hiddenSize) ≤
        (m.nLayers + 1) * m.mkSeqCap * m.hiddenSize := by
      rw [Nat.mul_assoc]
      exact Nat.mul_le_mul_left _ (Nat.mul_le_mul_right _ h.seqLen_le)
    dsimp only at hq
    generalize p.seqLen * m.hiddenSize = n at *
    -- the part `layer` of the buffer
    have hpart : ∀ layer ≤ m.nLayers, layer * n + n ≤ (m.nLayers + 1) * n := by
      intro layer hlayer
      rw [← Nat.succ_mul]
      exact Nat.mul_le_mul_right _ (Nat.succ_le_succ hlayer)
    rcases List.mem_cons.mp hq with rfl | hq
    · have hfirst := hpart 0 (Nat.zero_le _)
      refine ⟨hact, .inr ⟨le_rfl, ?_⟩⟩
      show (0 : Int) + (n : Nat) ≤ ((m.nLayers + 1) * m.mkSeqCap * m.hiddenSize : Nat)
      omega
    · obtain ⟨layer, hlayer, rfl⟩ := List.mem_map.mp hq
      have hend := hpart (layer + 1) (List.mem_range.mp hlayer)
      refine ⟨by show (layer + 1) * n + (n - 1) < 2 ^ 31; omega, .inr ⟨Int.natCast_nonneg _, ?_⟩⟩
      show (((layer + 1) * n : Nat) : Int) + n ≤
        ((m.nLayers + 1) * m.mkSeqCap * m.hiddenSize : Nat)
      omega
  · cases hq

end MegakernelFits

/-! What the pieces of a launch within the buffers say of its lengths. -/

namespace MegakernelWithin

variable (h : m.MegakernelWithin p)

include h

/-- The last norm is in front of the buffer if there is no token. -/
theorem seqLen_pos : 0 < p.seqLen := by
  have hlast := h.act ⟨m.ping p m.nLayers + ((p.seqLen : Int) - 1) * m.hiddenSize, m.hiddenSize,
      (p.seqLen - 1) * m.hiddenSize⟩ (List.mem_append_right _ (List.mem_singleton.mpr rfl))
  have hstart := (hlast.2.resolve_left m.hiddenSize_pos.ne').1
  dsimp only at hstart
  by_contra hzero
  have hn : p.seqLen = 0 := Nat.eq_zero_of_not_pos hzero
  have hping : m.ping p m.nLayers = 0 := by
    unfold ping
    rw [hn, Nat.zero_mul, ite_self]
  have hhidden := m.hiddenSize_pos
  rw [hping, hn] at hstart
  omega

/-- A piece of the first layer. -/
theorem first_layer {q : Piece} (hq : q ∈ m.layerPieces p 0) :
    q.Inside (2 * m.mkSeqCap * m.hiddenSize) := by
  apply h.act
  apply List.mem_append_left
  apply List.mem_append_right
  exact List.mem_flatMap.mpr ⟨0, List.mem_range.mpr m.nLayers_pos, hq⟩

theorem act_index : p.seqLen * m.hiddenSize < 2 ^ 31 :=
  (h.first_layer List.mem_cons_self).1

/-- The second half of the buffer has rows of the hidden size, the heads and the FFN. -/
theorem last_row : p.seqLen * m.hiddenSize + (p.seqLen - 1) * m.hiddenSize + m.rowWidth ≤
    2 * m.mkSeqCap * m.hiddenSize := by
  have hpong : m.pong p 0 = p.seqLen * m.hiddenSize := rfl
  have hends : ∀ offset width, (∀ q ∈ m.rows p (m.pong p 0) offset width,
      q ∈ m.layerPieces p 0) → width = 0 ∨
        p.seqLen * m.hiddenSize + (p.seqLen - 1) * m.hiddenSize + offset + width ≤
          2 * m.mkSeqCap * m.hiddenSize := by
    intro offset width hmem
    rw [← hpong]
    exact (rows_inside_iff h.seqLen_pos h.act_index).mp fun q hq => h.first_layer (hmem q hq)
  have hhidden := hends 0 m.hiddenSize fun q hq => by
    simp [layerPieces, hq]
  have hffn := hends 0 m.ffnHiddenSize fun q hq => by
    simp [layerPieces, hq]
  have hheads := hends ((m.nHeads - 1) * m.headDim) m.headDim fun q hq => by
    have hhead : ∃ head < m.nHeads, q ∈ m.rows p (m.pong p 0) (head * m.headDim) m.headDim :=
      ⟨m.nHeads - 1, Nat.sub_lt m.nHeads_pos Nat.one_pos, hq⟩
    simp [layerPieces, hhead]
  have hlastHead : (m.nHeads - 1) * m.headDim + m.headDim = m.nHeads * m.headDim := by
    rw [← Nat.succ_mul, Nat.succ_eq_add_one, Nat.sub_add_cancel m.nHeads_pos]
  have hpos := m.hiddenSize_pos
  unfold rowWidth
  rcases hheads with hzero | hheads
  · rw [hzero, Nat.mul_zero]
    omega
  · omega

theorem softmax_index : (m.nHeads * p.seqLen - 1) * p.kvSeqLen < 2 ^ 31 := by
  have hn := h.seqLen_pos
  rw [← digits_last m.nHeads_pos hn]
  refine (h.softmax ⟨(((m.nHeads - 1) * p.seqLen + (p.seqLen - 1)) * p.kvSeqLen : Nat),
    p.kvSeqLen, ((m.nHeads - 1) * p.seqLen + (p.seqLen - 1)) * p.kvSeqLen⟩ ?_).1
  apply List.mem_flatMap.mpr
  refine ⟨p.seqLen - 1, List.mem_range.mpr (Nat.sub_lt hn Nat.one_pos), ?_⟩
  exact List.mem_map.mpr
    ⟨m.nHeads - 1, List.mem_range.mpr (Nat.sub_lt m.nHeads_pos Nat.one_pos), rfl⟩

theorem attn_index (hsave : m.megakernelSaveAttn = true) :
    (m.nLayers * m.nHeads * p.seqLen - 1) * p.kvSeqLen < 2 ^ 31 := by
  have hn := h.seqLen_pos
  rw [← digits_last (Nat.mul_pos m.nLayers_pos m.nHeads_pos) hn,
    ← digits_last m.nLayers_pos m.nHeads_pos]
  refine (h.attn ⟨((((m.nLayers - 1) * m.nHeads + (m.nHeads - 1)) * p.seqLen +
    (p.seqLen - 1)) * p.kvSeqLen : Nat), p.kvSeqLen, (((m.nLayers - 1) * m.nHeads +
    (m.nHeads - 1)) * p.seqLen + (p.seqLen - 1)) * p.kvSeqLen⟩ ?_).1
  unfold attnPieces
  rw [if_pos hsave]
  apply List.mem_flatMap.mpr
  refine ⟨m.nLayers - 1, List.mem_range.mpr (Nat.sub_lt m.nLayers_pos Nat.one_pos), ?_⟩
  apply List.mem_flatMap.mpr
  refine ⟨p.seqLen - 1, List.mem_range.mpr (Nat.sub_lt hn Nat.one_pos), ?_⟩
  exact List.mem_map.mpr
    ⟨m.nHeads - 1, List.mem_range.mpr (Nat.sub_lt m.nHeads_pos Nat.one_pos), rfl⟩

theorem hidden_index (hsave : m.megakernelSaveHidden = true) :
    (m.nLayers + 1) * (p.seqLen * m.hiddenSize) ≤ 2 ^ 31 := by
  have hpos : 0 < p.seqLen * m.hiddenSize := Nat.mul_pos h.seqLen_pos m.hiddenSize_pos
  have hlast := (h.hidden ⟨((m.nLayers - 1 + 1) * (p.seqLen * m.hiddenSize) : Nat),
    p.seqLen * m.hiddenSize, (m.nLayers - 1 + 1) * (p.seqLen * m.hiddenSize) +
    (p.seqLen * m.hiddenSize - 1)⟩ ?_).1
  · dsimp only at hlast
    rw [Nat.sub_add_cancel m.nLayers_pos] at hlast
    rw [Nat.add_mul, Nat.one_mul]
    omega
  · unfold hiddenPieces
    rw [if_pos hsave]
    apply List.mem_cons_of_mem
    exact List.mem_map.mpr
      ⟨m.nLayers - 1, List.mem_range.mpr (Nat.sub_lt m.nLayers_pos Nat.one_pos), rfl⟩

end MegakernelWithin

/-- A launch of the megakernel stays within its buffers exactly if the positions are covered
    by the pool and the rows and indices of its tokens fit. -/
theorem megakernelWithin_iff :
    m.MegakernelWithin p ↔ p.kvSeqLen ≤ m.mkKvCap ∧ m.MegakernelFits p := by
  constructor
  · intro h
    exact ⟨h.kvSeqLen, h.seqLen_pos, h.last_row, h.act_index, h.softmax_index, h.attn_index,
      h.hidden_index⟩
  · intro h
    obtain ⟨hkv, hfits⟩ := h
    have hcopy : ∀ {n size : Nat}, n ≤ size → Piece.Inside size ⟨0, n, 0⟩ := by
      intro n size hle
      refine ⟨Nat.two_pow_pos 31, .inr ⟨le_rfl, ?_⟩⟩
      show (0 : Int) + n ≤ size
      omega
    exact ⟨hfits.seqLen_le, hkv, hcopy hfits.seqLen_le, hcopy hkv, hfits.act_inside,
      hfits.softmax_inside hkv, hfits.attn_inside hkv, hfits.hidden_inside⟩

/-! ## Partitions -/

variable {maxCtx : Nat}

theorem nPart_le_iff {n : Nat} : m.nPart maxCtx ≤ n ↔ maxCtx ≤ 32 * m.blockSize * n := by
  have hpos : 0 < 32 * m.blockSize := Nat.mul_pos (by decide) m.blockSize_pos
  unfold nPart
  rw [← Nat.lt_succ_iff, Nat.div_lt_iff_lt_mul hpos, Nat.succ_mul n,
    Nat.mul_comm n]
  omega

theorem numPartitions_le_nPart (maxCtx : Nat) : m.numPartitions maxCtx ≤ m.nPart maxCtx := by
  have hctx : maxCtx ≤ 32 * m.blockSize * m.nPart maxCtx := nPart_le_iff.mp le_rfl
  have hblocks : maxCtx / m.blockSize ≤ 32 * m.nPart maxCtx := by
    apply Nat.div_le_of_le_mul
    calc maxCtx ≤ 32 * m.blockSize * m.nPart maxCtx := hctx
      _ = m.blockSize * (32 * m.nPart maxCtx) := by ring
  unfold numPartitions
  omega

theorem numPartitions_pos (hlong : 32 < maxCtx / m.blockSize) : 0 < m.numPartitions maxCtx := by
  unfold numPartitions
  omega

theorem busyPartitions_pos (hlong : 32 < maxCtx / m.blockSize) :
    0 < m.busyPartitions maxCtx := by
  have hctx : maxCtx / m.blockSize ≤ maxCtx := Nat.div_le_self _ _
  have hparts := numPartitions_pos hlong
  unfold busyPartitions
  omega

theorem row_inside_iff (base : Nat) {width size : Nat} (hwidth : 0 < width) :
    Piece.Inside size ⟨(base * width : Nat), width, 0⟩ ↔ (base + 1) * width ≤ size := by
  rw [Nat.add_mul, Nat.one_mul]
  constructor
  · intro h
    have hend : ((base * width : Nat) : Int) + width ≤ size := (h.2.resolve_left hwidth.ne').2
    omega
  · intro h
    refine ⟨Nat.two_pow_pos 31, .inr ⟨Int.natCast_nonneg _, ?_⟩⟩
    show ((base * width : Nat) : Int) + width ≤ size
    omega

/-- The last partition of the last head decides. -/
theorem partitionRows_inside_iff {parts width size : Nat} (hparts : 0 < parts)
    (hwidth : 0 < width) :
    (∀ q ∈ m.partitionRows maxCtx parts width, q.Inside size) ↔
      ((m.nHeads - 1) * m.numPartitions maxCtx + parts) * width ≤ size := by
  constructor
  · intro h
    have hlast := (row_inside_iff ((m.nHeads - 1) * m.numPartitions maxCtx + (parts - 1))
      hwidth).mp (h _ ?_)
    · rwa [Nat.add_assoc, Nat.sub_add_cancel hparts] at hlast
    · apply List.mem_flatMap.mpr
      refine ⟨m.nHeads - 1, List.mem_range.mpr (Nat.sub_lt m.nHeads_pos Nat.one_pos), ?_⟩
      exact List.mem_map.mpr ⟨parts - 1, List.mem_range.mpr (Nat.sub_lt hparts Nat.one_pos), rfl⟩
  · intro h q hq
    obtain ⟨head, hhead, hq⟩ := List.mem_flatMap.mp hq
    obtain ⟨part, hpart, rfl⟩ := List.mem_map.mp hq
    rw [List.mem_range] at hhead hpart
    have hheads : head * m.numPartitions maxCtx ≤ (m.nHeads - 1) * m.numPartitions maxCtx :=
      Nat.mul_le_mul_right _ (by omega)
    refine (row_inside_iff _ hwidth).mpr ((Nat.mul_le_mul_right _ ?_).trans h)
    omega

theorem pass1Size_pos : 0 < 128 * m.pass1Size := by
  unfold pass1Size
  split
  · decide
  · decide

theorem pass2Size_pos : 0 < 128 * m.pass2Size := by
  unfold pass2Size
  split
  · decide
  · decide

theorem pass2_fits_iff :
    128 * m.pass2Size ≤ m.headDim * 2 ↔ 256 ≤ m.headDim ∨ m.headDim = 128 := by
  unfold pass2Size
  split
  · omega
  · omega

theorem outPieces_inside_iff :
    (∀ q ∈ m.outPieces, q.Inside (m.nHeads * m.headDim * 2)) ↔
      256 ≤ m.headDim ∨ m.headDim = 128 := by
  rw [← pass2_fits_iff]
  constructor
  · intro h
    have hlast := (row_inside_iff (m.nHeads - 1) pass2Size_pos).mp (h _ (List.mem_map.mpr
      ⟨m.nHeads - 1, List.mem_range.mpr (Nat.sub_lt m.nHeads_pos Nat.one_pos), rfl⟩))
    rw [Nat.sub_add_cancel m.nHeads_pos, Nat.mul_assoc m.nHeads] at hlast
    exact Nat.le_of_mul_le_mul_left hlast m.nHeads_pos
  · intro h q hq
    obtain ⟨head, hhead, rfl⟩ := List.mem_map.mp hq
    apply (row_inside_iff _ pass2Size_pos).mpr
    rw [Nat.mul_assoc m.nHeads]
    exact Nat.mul_le_mul (List.mem_range.mp hhead) h

theorem lastPartition_le {parts : Nat} (hparts : parts ≤ m.numPartitions maxCtx)
    (hcap : m.numPartitions maxCtx ≤ m.v2MaxPartitions) :
    (m.nHeads - 1) * m.numPartitions maxCtx + parts ≤ m.nHeads * m.v2MaxPartitions :=
  calc (m.nHeads - 1) * m.numPartitions maxCtx + parts
      ≤ (m.nHeads - 1) * m.numPartitions maxCtx + m.numPartitions maxCtx :=
        Nat.add_le_add_left hparts _
    _ = m.nHeads * m.numPartitions maxCtx := by
        rw [← Nat.succ_mul, Nat.succ_eq_add_one, Nat.sub_add_cancel m.nHeads_pos]
    _ ≤ m.nHeads * m.v2MaxPartitions := Nat.mul_le_mul_left _ hcap

/-- The rows of all partitions, where a row is no wider than those of the buffer. -/
theorem allPartitions_le {parts width : Nat} (hparts : parts ≤ m.numPartitions maxCtx)
    (hcap : m.numPartitions maxCtx ≤ m.v2MaxPartitions) (hwidth : width ≤ m.headDim * 2) :
    ((m.nHeads - 1) * m.numPartitions maxCtx + parts) * width ≤
      m.nHeads * m.v2MaxPartitions * m.headDim * 2 := by
  rw [Nat.mul_assoc (m.nHeads * m.v2MaxPartitions)]
  exact Nat.mul_le_mul (lastPartition_le hparts hcap) hwidth

theorem partials_inside (hlong : 32 < maxCtx / m.blockSize)
    (hcap : m.numPartitions maxCtx ≤ m.v2MaxPartitions) :
    ∀ q ∈ m.partialPieces maxCtx, q.Inside (m.nHeads * m.v2MaxPartitions) := by
  have hrows : ∀ {parts}, 0 < parts → parts ≤ m.numPartitions maxCtx →
      ∀ q ∈ m.partitionRows maxCtx parts 1, q.Inside (m.nHeads * m.v2MaxPartitions) := by
    intro parts hpos hle
    rw [partitionRows_inside_iff hpos Nat.one_pos, Nat.mul_one]
    exact lastPartition_le hle hcap
  intro q hq
  rcases List.mem_append.mp hq with hq | hq
  · exact hrows (busyPartitions_pos hlong) (Nat.min_le_left _ _) q hq
  · exact hrows (numPartitions_pos hlong) le_rfl q hq

/-- Where `out` has room for the heads, `tmp_out` has it for all partials but those of a first
    pass in `float` behind a second pass in `__half`. -/
theorem tmpPieces_inside_iff (hlong : 32 < maxCtx / m.blockSize)
    (hcap : m.numPartitions maxCtx ≤ m.v2MaxPartitions)
    (hhead : 256 ≤ m.headDim ∨ m.headDim = 128) :
    (∀ q ∈ m.tmpPieces maxCtx, q.Inside (m.nHeads * m.v2MaxPartitions * m.headDim * 2)) ↔
      256 ≤ m.headDim ∨ m.headDim = 128 ∧ (m.blockSize = 16 ∨
        2 * ((m.nHeads - 1) * m.numPartitions maxCtx + m.busyPartitions maxCtx) ≤
          m.nHeads * m.v2MaxPartitions) := by
  have hbusy := busyPartitions_pos hlong
  have hle : m.busyPartitions maxCtx ≤ m.numPartitions maxCtx := Nat.min_le_left _ _
  have hsecond := (partitionRows_inside_iff (numPartitions_pos hlong) pass2Size_pos).mpr
    (allPartitions_le le_rfl hcap (pass2_fits_iff.mpr hhead))
  have hboth : (∀ q ∈ m.tmpPieces maxCtx,
      q.Inside (m.nHeads * m.v2MaxPartitions * m.headDim * 2)) ↔
        ((m.nHeads - 1) * m.numPartitions maxCtx + m.busyPartitions maxCtx) *
          (128 * m.pass1Size) ≤ m.nHeads * m.v2MaxPartitions * m.headDim * 2 := by
    rw [← partitionRows_inside_iff hbusy pass1Size_pos]
    constructor
    · exact fun h q hq => h q (List.mem_append_left _ hq)
    · exact fun h q hq => (List.mem_append.mp hq).elim (h q) (hsecond q)
  rw [hboth]
  rcases hhead with hlarge | hhead
  · have hwidth : 128 * m.pass1Size ≤ m.headDim * 2 := by
      unfold pass1Size
      rw [if_neg (by omega)]
      omega
    exact iff_of_true (allPartitions_le hle hcap hwidth) (.inl hlarge)
  · by_cases hblock : m.blockSize = 16
    · have hwidth : 128 * m.pass1Size ≤ m.headDim * 2 := by
        unfold pass1Size
        rw [if_pos ⟨hhead, hblock⟩]
        omega
      exact iff_of_true (allPartitions_le hle hcap hwidth) (.inr ⟨hhead, .inl hblock⟩)
    · have hsize : m.pass1Size = 4 := by
        unfold pass1Size
        exact if_neg fun h => hblock h.2
      rw [hsize, hhead]
      omega

/-- A pass of the legacy path stays within its buffers exactly if the context is short or fits
    the partitions, with heads of the right length. -/
theorem pagedWithin_iff : m.PagedWithin maxCtx ↔ m.PagedFits maxCtx := by
  unfold PagedWithin PagedFits
  rw [← Nat.not_lt, ← imp_iff_not_or]
  apply imp_congr_right
  intro hlong
  rw [← nPart_le_iff]
  constructor
  · intro h
    have hcap := (numPartitions_le_nPart maxCtx).trans h.partitions
    exact ⟨h.partitions, (tmpPieces_inside_iff hlong hcap (outPieces_inside_iff.mp h.out)).mp
      h.tmpOut⟩
  · intro h
    obtain ⟨hparts, hheads⟩ := h
    have hcap := (numPartitions_le_nPart maxCtx).trans hparts
    have hhead : 256 ≤ m.headDim ∨ m.headDim = 128 := hheads.imp_right And.left
    exact ⟨hparts, partials_inside hlong hcap, (tmpPieces_inside_iff hlong hcap hhead).mpr hheads,
      outPieces_inside_iff.mpr hhead⟩

end Scratch

end TruellmEngine.Cuda
