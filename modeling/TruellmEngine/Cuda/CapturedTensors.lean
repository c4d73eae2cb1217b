/-
  The attention weights and hidden states that a megakernel pass captures
  (`megakernel.cu`) and that plugins read through the engine (`cuda_engine.cpp`).

  The buffers are allocated for `mk_seq_cap_` tokens and `mk_kv_cap_` cells, and the accessors
  stride over the layers by these capacities. The kernel strides by the lengths of the pass,
  and computes its indices in `int`. A store is an address with the element it carries; the
  stores of a pass are made by many threads, so their order is left open.

  `readsBack_iff`: every layer is read where it was stored, with its exact size, if and only
  if the pass fills the capacities and the indices of all layers fit an `int`.
-/
import TruellmEngine.Cuda.KvCells
import TruellmEngine.Lib.Stores

namespace TruellmEngine.Cuda

open Lib

/-! ## Model -/

/-- What the engine knows of the capture: the dimensions of the model, the capacities, and
    the buffers (`d_mk_attn_weights_`, `d_mk_hidden_states_`), null where capture is off. -/
structure Capture where
  mkNLayers : Nat
  mkNHeads : Nat
  hiddenSize : Nat
  mkSeqCap : Nat
  mkKvCap : Nat
  attnWeights : Option Int
  hiddenStates : Option Int

/-- The lengths of a pass (`MegakernelArgs`). -/
structure Pass where
  seqLen : Nat
  kvSeqLen : Nat

/-- An attention weight of a pass. -/
structure AttnElem where
  layer : Nat
  head : Nat
  query : Nat
  key : Nat
  deriving DecidableEq, Repr

/-- A component of the activations of a pass in front of (0) or behind a layer. -/
structure HiddenElem where
  layer : Nat
  index : Nat
  deriving DecidableEq, Repr

namespace Capture

/-- `[n_layers, n_heads, seq_cap, kv_cap]` F32. -/
def attnBytes (c : Capture) : Nat := c.mkNLayers * c.mkNHeads * c.mkSeqCap * c.mkKvCap * 4

/-- `[n_layers + 1, seq_cap, hidden]` F16. -/
def hiddenBytes (c : Capture) : Nat := (c.mkNLayers + 1) * c.mkSeqCap * c.hiddenSize * 2

/-- The address and the size in bytes. -/
def getHiddenStates (c : Capture) (layerIdx : Int) : Option Int × Int :=
  match c.hiddenStates with
  | none => (none, 0)
  | some buf =>
    if layerIdx < 0 ∨ c.mkNLayers < layerIdx then (none, 0)
    else
      let layerStride : Int := c.mkSeqCap * c.hiddenSize * 2
      (some (buf + layerIdx * layerStride), layerStride)

def getAttentionWeights (c : Capture) (layerIdx : Int) : Option Int × Int :=
  match c.attnWeights with
  | none => (none, 0)
  | some buf =>
    if layerIdx < 0 ∨ c.mkNLayers ≤ layerIdx then (none, 0)
    else
      let layerStride : Int := c.mkNHeads * c.mkSeqCap * c.mkKvCap * 4
      (some (buf + layerIdx * layerStride), layerStride)

/-! The kernel. An `int` sum or product is the wrap of the exact one. -/

/-- The row of `kv_seq_len` weights of a layer, a head and a token. -/
def row (c : Capture) (p : Pass) (layer h tok : Nat) : Nat :=
  (layer * c.mkNHeads + h) * p.seqLen + tok

/-- The stores of `save_attn_weights`. -/
def attnStores (c : Capture) (p : Pass) : List (Int × AttnElem) :=
  match c.attnWeights with
  | none => []
  | some out =>
    (List.range c.mkNLayers).flatMap fun layer =>
      (List.range p.seqLen).flatMap fun tok =>
        (List.range c.mkNHeads).flatMap fun h =>
          let dst := out + 4 * toInt (c.row p layer h tok * p.kvSeqLen)
          (List.range p.kvSeqLen).map fun (kv : Nat) => (dst + 4 * kv, ⟨layer, h, tok, kv⟩)

/-- The bound `n` of the loops that save hidden states. -/
def hiddenCount (c : Capture) (p : Pass) : Nat := (toInt (p.seqLen * c.hiddenSize)).toNat

/-- The stores of `save_hidden_states`: the embedding, then the output of every layer. -/
def hiddenStores (c : Capture) (p : Pass) : List (Int × HiddenElem) :=
  match c.hiddenStates with
  | none => []
  | some out =>
    ((List.range (c.hiddenCount p)).map fun (i : Nat) => (out + 2 * i, ⟨0, i⟩)) ++
      (List.range c.mkNLayers).flatMap fun (layer : Nat) =>
        let offset := toInt ((layer + 1) * p.seqLen * c.hiddenSize)
        (List.range (c.hiddenCount p)).map fun (i : Nat) =>
          (out + 2 * toInt (offset + i), ⟨layer + 1, i⟩)

/-! ## Reading back -/

/-- The weights of every layer are read where the pass stored them. -/
def AttnReadsBack (c : Capture) (p : Pass) : Prop :=
  ∀ buf, c.attnWeights = some buf → ∀ order, order.Perm (c.attnStores p) →
    ∀ layer < c.mkNLayers, ∃ ptr size, c.getAttentionWeights layer = (some ptr, size) ∧
      size = (c.mkNHeads * p.seqLen * p.kvSeqLen * 4 : Nat) ∧
      buf ≤ ptr ∧ ptr + size ≤ buf + c.attnBytes ∧
      ∀ h < c.mkNHeads, ∀ q < p.seqLen, ∀ k < p.kvSeqLen,
        afterStores order (ptr + 4 * ((h * p.seqLen + q) * p.kvSeqLen + k : Nat)) =
          some ⟨layer, h, q, k⟩

/-- The hidden states in front of every layer and behind the last one are read where the
    pass stored them. -/
def HiddenReadsBack (c : Capture) (p : Pass) : Prop :=
  ∀ buf, c.hiddenStates = some buf → ∀ order, order.Perm (c.hiddenStores p) →
    ∀ layer ≤ c.mkNLayers, ∃ ptr size, c.getHiddenStates layer = (some ptr, size) ∧
      size = (p.seqLen * c.hiddenSize * 2 : Nat) ∧
      buf ≤ ptr ∧ ptr + size ≤ buf + c.hiddenBytes ∧
      ∀ tok < p.seqLen, ∀ dim < c.hiddenSize,
        afterStores order (ptr + 2 * (tok * c.hiddenSize + dim : Nat)) =
          some ⟨layer, tok * c.hiddenSize + dim⟩

def ReadsBack (c : Capture) (p : Pass) : Prop := c.AttnReadsBack p ∧ c.HiddenReadsBack p

/-- The pass fills the capacities of a layer, and the index of its last row is an `int`. -/
def AttnFits (c : Capture) (p : Pass) : Prop :=
  c.attnWeights = none ∨ c.mkNLayers = 0 ∨
    (c.mkNHeads * p.seqLen * p.kvSeqLen = c.mkNHeads * c.mkSeqCap * c.mkKvCap ∧
      (c.mkNLayers * c.mkNHeads * p.seqLen - 1) * p.kvSeqLen < 2 ^ 31)

/-- The pass fills the capacity of a layer, and all indices and the loop bound are `int`s. -/
def HiddenFits (c : Capture) (p : Pass) : Prop :=
  c.hiddenStates = none ∨
    (p.seqLen * c.hiddenSize = c.mkSeqCap * c.hiddenSize ∧
      p.seqLen * c.hiddenSize < 2 ^ 31 ∧
      (c.mkNLayers + 1) * p.seqLen * c.hiddenSize ≤ 2 ^ 31)

variable {c : Capture} {p : Pass} {buf : Int}

theorem toInt_mul_of_lt {a b : Nat} (h : a * b < 2 ^ 31) : toInt (a * b) = (a * b : Nat) := by
  rw [← Geometry.toInt_of_lt h, Nat.cast_mul]

theorem lt_of_le_toInt {n : Nat} {x : Int} (h : (n : Int) ≤ toInt x) : n < 2 ^ 31 := by
  have hlt : toInt x < ((2 ^ 32 : Nat) + 1) / 2 := Int.bmod_lt (by decide)
  omega

theorem lt_of_lt_toNat {n : Nat} {x : Int} (hn : 0 < n) (h : n - 1 < (toInt x).toNat) :
    n < 2 ^ 31 := lt_of_le_toInt (x := x) (by omega)

/-! ## Attention weights -/

theorem mem_attnStores (hbuf : c.attnWeights = some buf) {a : Int} {e : AttnElem} :
    (a, e) ∈ c.attnStores p ↔
      e.layer < c.mkNLayers ∧ e.query < p.seqLen ∧ e.head < c.mkNHeads ∧ e.key < p.kvSeqLen ∧
        a = buf + 4 * toInt (c.row p e.layer e.head e.query * p.kvSeqLen) + 4 * e.key := by
  unfold attnStores
  rw [hbuf]
  simp only [List.mem_flatMap, List.mem_map, List.mem_range, Prod.mk.injEq]
  constructor
  · rintro ⟨layer, hl, tok, ht, h, hh, kv, hk, rfl, rfl⟩
    exact ⟨hl, ht, hh, hk, rfl⟩
  · rintro ⟨hl, ht, hh, hk, rfl⟩
    exact ⟨_, hl, _, ht, _, hh, _, hk, rfl, rfl⟩

theorem row_lt {layer h tok : Nat} (hl : layer < c.mkNLayers) (hh : h < c.mkNHeads)
    (ht : tok < p.seqLen) : c.row p layer h tok < c.mkNLayers * c.mkNHeads * p.seqLen :=
  digits_lt (digits_lt hl hh) ht

/-- A row and a place in it name the element. -/
theorem row_inj {e e' : AttnElem} (hh : e.head < c.mkNHeads) (hh' : e'.head < c.mkNHeads)
    (hq : e.query < p.seqLen) (hq' : e'.query < p.seqLen) (hk : e.key < p.kvSeqLen)
    (hk' : e'.key < p.kvSeqLen)
    (heq : c.row p e.layer e.head e.query * p.kvSeqLen + e.key =
      c.row p e'.layer e'.head e'.query * p.kvSeqLen + e'.key) : e = e' := by
  obtain ⟨hrow, hkey⟩ := digits_inj hk hk' heq
  obtain ⟨hlh, hquery⟩ := digits_inj hq hq' hrow
  obtain ⟨hlayer, hhead⟩ := digits_inj hh hh' hlh
  cases e
  cases e'
  simp only at hlayer hhead hquery hkey
  subst hlayer hhead hquery hkey
  rfl

theorem getAttentionWeights_of_lt (hbuf : c.attnWeights = some buf) {layer : Nat}
    (hl : layer < c.mkNLayers) :
    c.getAttentionWeights layer =
      (some (buf + layer * (c.mkNHeads * c.mkSeqCap * c.mkKvCap * 4)),
        (c.mkNHeads * c.mkSeqCap * c.mkKvCap * 4 : Int)) := by
  unfold getAttentionWeights
  rw [hbuf]
  exact if_neg (by omega)

/-- A layer that fills its part of the buffer is read by the rows it was stored in. -/
theorem attn_address
    (hfill : c.mkNHeads * p.seqLen * p.kvSeqLen = c.mkNHeads * c.mkSeqCap * c.mkKvCap)
    (layer h q k : Nat) :
    buf + layer * (c.mkNHeads * c.mkSeqCap * c.mkKvCap * 4) +
        4 * ((h * p.seqLen + q) * p.kvSeqLen + k : Nat) =
      buf + 4 * (c.row p layer h q * p.kvSeqLen + k : Nat) := by
  have hcast : (c.mkNHeads * c.mkSeqCap * c.mkKvCap : Int) =
      c.mkNHeads * p.seqLen * p.kvSeqLen := by exact_mod_cast hfill.symm
  rw [hcast]
  unfold row
  push_cast
  ring

theorem attnReadsBack_of_fits (h : c.AttnFits p) : c.AttnReadsBack p := by
  intro buf hbuf order hperm layer hl
  rcases h with hnone | hzero | ⟨hfill, hint⟩
  · rw [hbuf] at hnone
    cases hnone
  · omega
  · -- no index wraps
    have hexact : ∀ l h q, l < c.mkNLayers → h < c.mkNHeads → q < p.seqLen →
        toInt (c.row p l h q * p.kvSeqLen) = (c.row p l h q * p.kvSeqLen : Nat) := by
      intro l h q hl hh hq
      have hrow := row_lt hl hh hq
      have hmul : c.row p l h q * p.kvSeqLen ≤
          (c.mkNLayers * c.mkNHeads * p.seqLen - 1) * p.kvSeqLen :=
        Nat.mul_le_mul_right _ (by omega)
      exact toInt_mul_of_lt (Nat.lt_of_le_of_lt hmul hint)
    refine ⟨_, _, getAttentionWeights_of_lt hbuf hl, ?_, ?_, ?_, ?_⟩
    · rw [hfill]
      push_cast
      rfl
    · have hnn : (0 : Int) ≤ (layer * (c.mkNHeads * c.mkSeqCap * c.mkKvCap * 4) : Nat) :=
        Int.natCast_nonneg _
      push_cast at hnn
      omega
    · have hle : (layer + 1) * (c.mkNHeads * c.mkSeqCap * c.mkKvCap * 4) ≤
          c.mkNLayers * (c.mkNHeads * c.mkSeqCap * c.mkKvCap * 4) :=
        Nat.mul_le_mul_right _ hl
      have hcast : ((layer : Int) + 1) * (c.mkNHeads * c.mkSeqCap * c.mkKvCap * 4) ≤
          c.mkNLayers * (c.mkNHeads * c.mkSeqCap * c.mkKvCap * 4) := by exact_mod_cast hle
      unfold attnBytes
      push_cast
      linarith
    · intro h hh q hq k hk
      rw [attn_address hfill]
      apply afterStores_of_mem
      · rw [hperm.mem_iff, mem_attnStores hbuf]
        refine ⟨hl, hq, hh, hk, ?_⟩
        rw [hexact layer h q hl hh hq]
        push_cast
        ring
      · intro e he
        rw [hperm.mem_iff, mem_attnStores hbuf] at he
        obtain ⟨hl', hq', hh', hk', ha⟩ := he
        rw [hexact _ _ _ hl' hh' hq'] at ha
        refine row_inj (c := c) (p := p) hh' hh hq' hq hk' hk ?_
        show c.row p e.layer e.head e.query * p.kvSeqLen + e.key =
          c.row p layer h q * p.kvSeqLen + k
        omega

/-- Where the buffer is there and the layers are, reading back needs the sizes to agree and
    the last row to have an `int` for its index. -/
theorem fits_of_attnReadsBack (h : c.AttnReadsBack p) : c.AttnFits p := by
  cases hbuf : c.attnWeights with
  | none => exact Or.inl hbuf
  | some buf =>
    refine Or.inr ?_
    rcases Nat.eq_zero_or_pos c.mkNLayers with hzero | hpos
    · exact Or.inl hzero
    · right
      have hread := h buf hbuf _ (List.Perm.refl _)
      have hfill : c.mkNHeads * p.seqLen * p.kvSeqLen = c.mkNHeads * c.mkSeqCap * c.mkKvCap := by
        obtain ⟨ptr, size, hget, hsize, -⟩ := hread 0 hpos
        rw [getAttentionWeights_of_lt hbuf hpos] at hget
        have hs : (c.mkNHeads * c.mkSeqCap * c.mkKvCap * 4 : Int) =
            (c.mkNHeads * p.seqLen * p.kvSeqLen * 4 : Nat) := (congrArg Prod.snd hget).trans hsize
        have hs : c.mkNHeads * c.mkSeqCap * c.mkKvCap * 4 =
            c.mkNHeads * p.seqLen * p.kvSeqLen * 4 := by exact_mod_cast hs
        omega
      refine ⟨hfill, ?_⟩
      by_cases hnone : c.mkNLayers * c.mkNHeads * p.seqLen * p.kvSeqLen = 0
      · -- there is no element, and no index
        have hz : (c.mkNLayers * c.mkNHeads * p.seqLen - 1) * p.kvSeqLen = 0 := by
          rcases Nat.mul_eq_zero.mp hnone with hz | hz
          · rw [hz, Nat.zero_sub, Nat.zero_mul]
          · rw [hz, Nat.mul_zero]
        omega
      · have hk : 0 < p.kvSeqLen := Nat.pos_of_ne_zero (right_ne_zero_of_mul hnone)
        have hrows := left_ne_zero_of_mul hnone
        have hq : 0 < p.seqLen := Nat.pos_of_ne_zero (right_ne_zero_of_mul hrows)
        have hh : 0 < c.mkNHeads :=
          Nat.pos_of_ne_zero (right_ne_zero_of_mul (left_ne_zero_of_mul hrows))
        obtain ⟨ptr, size, hget, -, -, -, hmem⟩ := hread (c.mkNLayers - 1) (by omega)
        rw [getAttentionWeights_of_lt hbuf (by omega)] at hget
        obtain ⟨hptr, -⟩ := Prod.mk.inj hget
        cases hptr
        have hlast := mem_of_afterStores
          (hmem (c.mkNHeads - 1) (by omega) (p.seqLen - 1) (by omega) 0 hk)
        rw [attn_address hfill, mem_attnStores hbuf] at hlast
        obtain ⟨-, -, -, -, ha⟩ := hlast
        have hlastRow : c.row p (c.mkNLayers - 1) (c.mkNHeads - 1) (p.seqLen - 1) =
            c.mkNLayers * c.mkNHeads * p.seqLen - 1 := by
          unfold row
          rw [digits_last hpos hh, digits_last (Nat.mul_pos hpos hh) hq]
        rw [← hlastRow]
        have hexact : toInt (c.row p (c.mkNLayers - 1) (c.mkNHeads - 1) (p.seqLen - 1) *
            p.kvSeqLen) = (c.row p (c.mkNLayers - 1) (c.mkNHeads - 1) (p.seqLen - 1) *
            p.kvSeqLen : Nat) := by
          push_cast at ha ⊢
          linarith
        exact Geometry.lt_of_toInt ((congrArg toInt (Nat.cast_mul _ _)).trans hexact)

/-! ## Hidden states -/

theorem mem_hiddenStores (hbuf : c.hiddenStates = some buf) {a : Int} {e : HiddenElem} :
    (a, e) ∈ c.hiddenStores p ↔
      e.layer ≤ c.mkNLayers ∧ e.index < c.hiddenCount p ∧
        a = buf + 2 * (if e.layer = 0 then (e.index : Int)
          else toInt (toInt (e.layer * p.seqLen * c.hiddenSize) + e.index)) := by
  unfold hiddenStores
  rw [hbuf]
  simp only [List.mem_append, List.mem_flatMap, List.mem_map, List.mem_range, Prod.mk.injEq]
  constructor
  · rintro (⟨i, hi, rfl, rfl⟩ | ⟨layer, hl, i, hi, rfl, rfl⟩)
    · exact ⟨Nat.zero_le _, hi, rfl⟩
    · refine ⟨hl, hi, ?_⟩
      rw [if_neg (Nat.succ_ne_zero layer)]
      push_cast
      rfl
  · rintro ⟨hl, hi, rfl⟩
    obtain ⟨layer, i⟩ := e
    cases layer with
    | zero => exact Or.inl ⟨i, hi, rfl, rfl⟩
    | succ layer =>
      refine Or.inr ⟨layer, hl, i, hi, ?_, rfl⟩
      rw [if_neg (Nat.succ_ne_zero layer)]
      push_cast
      rfl

theorem getHiddenStates_of_le (hbuf : c.hiddenStates = some buf) {layer : Nat}
    (hl : layer ≤ c.mkNLayers) :
    c.getHiddenStates layer =
      (some (buf + layer * (c.mkSeqCap * c.hiddenSize * 2)),
        (c.mkSeqCap * c.hiddenSize * 2 : Int)) := by
  unfold getHiddenStates
  rw [hbuf]
  exact if_neg (by omega)

theorem hidden_address (hfill : p.seqLen * c.hiddenSize = c.mkSeqCap * c.hiddenSize)
    (layer i : Nat) :
    buf + layer * (c.mkSeqCap * c.hiddenSize * 2) + 2 * (i : Int) =
      buf + 2 * (layer * (p.seqLen * c.hiddenSize) + i : Nat) := by
  have hcast : (c.mkSeqCap * c.hiddenSize : Int) = p.seqLen * c.hiddenSize := by
    exact_mod_cast hfill.symm
  rw [hcast]
  push_cast
  ring

/-- The index of a layer's element, where it is an `int`. -/
theorem hidden_index {layer i : Nat} (hl : layer ≤ c.mkNLayers)
    (hi : i < p.seqLen * c.hiddenSize)
    (hint : (c.mkNLayers + 1) * p.seqLen * c.hiddenSize ≤ 2 ^ 31) :
    (if layer = 0 then (i : Int)
      else toInt (toInt (layer * p.seqLen * c.hiddenSize) + i)) =
      (layer * (p.seqLen * c.hiddenSize) + i : Nat) := by
  have hlt : layer * (p.seqLen * c.hiddenSize) + i < 2 ^ 31 := by
    have hd := digits_lt (Nat.lt_succ_of_le hl) hi
    rw [Nat.mul_assoc] at hint
    exact Nat.lt_of_lt_of_le hd hint
  by_cases hzero : layer = 0
  · rw [if_pos hzero, hzero, Nat.zero_mul, Nat.zero_add]
  · rw [if_neg hzero, toInt_add_toInt, ← Geometry.toInt_of_lt hlt]
    push_cast
    rw [mul_assoc]

/-- What a store by the rule of the accessor says of its index. -/
theorem index_of_stored (hbuf : c.hiddenStates = some buf) {layer i : Nat}
    (h : (buf + 2 * (layer * (p.seqLen * c.hiddenSize) + i : Nat), (⟨layer, i⟩ : HiddenElem)) ∈
      c.hiddenStores p) :
    i < c.hiddenCount p ∧ (layer ≠ 0 →
      (layer * (p.seqLen * c.hiddenSize) + i : Nat) =
        toInt (toInt (layer * p.seqLen * c.hiddenSize) + i)) := by
  rw [mem_hiddenStores hbuf] at h
  obtain ⟨-, hi, ha⟩ := h
  refine ⟨hi, fun hne => ?_⟩
  rw [if_neg hne] at ha
  linarith

theorem hiddenCount_of_lt (h : p.seqLen * c.hiddenSize < 2 ^ 31) :
    c.hiddenCount p = p.seqLen * c.hiddenSize := by
  unfold hiddenCount
  rw [toInt_mul_of_lt h]
  exact Int.toNat_natCast _

theorem hiddenReadsBack_of_fits (h : c.HiddenFits p) : c.HiddenReadsBack p := by
  intro buf hbuf order hperm layer hl
  rcases h with hnone | ⟨hfill, hcount, hint⟩
  · rw [hbuf] at hnone
    cases hnone
  · have hn := hiddenCount_of_lt hcount
    refine ⟨_, _, getHiddenStates_of_le hbuf hl, ?_, ?_, ?_, ?_⟩
    · rw [hfill]
      push_cast
      rfl
    · have hnn : (0 : Int) ≤ (layer * (c.mkSeqCap * c.hiddenSize * 2) : Nat) :=
        Int.natCast_nonneg _
      push_cast at hnn
      omega
    · have hle : (layer + 1) * (c.mkSeqCap * c.hiddenSize * 2) ≤
          (c.mkNLayers + 1) * (c.mkSeqCap * c.hiddenSize * 2) :=
        Nat.mul_le_mul_right _ (by omega)
      have hcast : ((layer : Int) + 1) * (c.mkSeqCap * c.hiddenSize * 2) ≤
          (c.mkNLayers + 1) * (c.mkSeqCap * c.hiddenSize * 2) := by exact_mod_cast hle
      unfold hiddenBytes
      push_cast
      linarith
    · intro tok ht dim hd
      have hi : tok * c.hiddenSize + dim < p.seqLen * c.hiddenSize := digits_lt ht hd
      rw [hidden_address hfill]
      apply afterStores_of_mem
      · rw [hperm.mem_iff, mem_hiddenStores hbuf]
        refine ⟨hl, by rw [hn]; exact hi, ?_⟩
        rw [hidden_index hl hi hint]
      · intro e he
        rw [hperm.mem_iff, mem_hiddenStores hbuf, hn] at he
        obtain ⟨hl', hi', ha⟩ := he
        rw [hidden_index hl' hi' hint] at ha
        obtain ⟨hlayer, hindex⟩ := digits_inj hi' hi (by omega :
          e.layer * (p.seqLen * c.hiddenSize) + e.index =
            layer * (p.seqLen * c.hiddenSize) + (tok * c.hiddenSize + dim))
        cases e
        simp only at hlayer hindex
        subst hlayer hindex
        rfl

/-- Where the buffer is there, reading back needs the sizes to agree, the loops to reach the
    last element and its index to be an `int` in every layer. -/
theorem fits_of_hiddenReadsBack (h : c.HiddenReadsBack p) : c.HiddenFits p := by
  cases hbuf : c.hiddenStates with
  | none => exact Or.inl hbuf
  | some buf =>
    right
    have hread := h buf hbuf _ (List.Perm.refl _)
    have hfill : p.seqLen * c.hiddenSize = c.mkSeqCap * c.hiddenSize := by
      obtain ⟨ptr, size, hget, hsize, -⟩ := hread 0 (Nat.zero_le _)
      rw [getHiddenStates_of_le hbuf (Nat.zero_le _)] at hget
      have hs : (c.mkSeqCap * c.hiddenSize * 2 : Int) = (p.seqLen * c.hiddenSize * 2 : Nat) :=
        (congrArg Prod.snd hget).trans hsize
      have hs : c.mkSeqCap * c.hiddenSize * 2 = p.seqLen * c.hiddenSize * 2 := by
        exact_mod_cast hs
      omega
    refine ⟨hfill, ?_⟩
    rcases Nat.eq_zero_or_pos (p.seqLen * c.hiddenSize) with hzero | hpos
    · rw [Nat.mul_assoc, hzero, Nat.mul_zero]
      exact ⟨by decide, by decide⟩
    · -- the last element of the last layer
      have hd : 0 < c.hiddenSize := Nat.pos_of_mul_pos_left hpos
      have hq : 0 < p.seqLen := Nat.pos_of_mul_pos_right hpos
      have hlast : (p.seqLen - 1) * c.hiddenSize + (c.hiddenSize - 1) =
          p.seqLen * c.hiddenSize - 1 := by
        rw [Nat.sub_mul, Nat.one_mul]
        have := Nat.le_mul_of_pos_left c.hiddenSize hq
        omega
      obtain ⟨ptr, size, hget, -, -, -, hmem⟩ := hread c.mkNLayers (Nat.le_refl _)
      rw [getHiddenStates_of_le hbuf (Nat.le_refl _)] at hget
      obtain ⟨hptr, -⟩ := Prod.mk.inj hget
      cases hptr
      have hstored :=
        mem_of_afterStores (hmem (p.seqLen - 1) (by omega) (c.hiddenSize - 1) (by omega))
      rw [hlast, hidden_address hfill] at hstored
      obtain ⟨hi, hindex⟩ := index_of_stored hbuf hstored
      have hcount : p.seqLen * c.hiddenSize < 2 ^ 31 := lt_of_lt_toNat hpos hi
      refine ⟨hcount, ?_⟩
      rw [Nat.mul_assoc, Nat.add_mul, Nat.one_mul]
      by_cases hzero : c.mkNLayers = 0
      · rw [hzero, Nat.zero_mul, Nat.zero_add]
        exact Nat.le_of_lt hcount
      · have hlt := lt_of_le_toInt (le_of_eq (hindex hzero))
        rw [← Nat.add_sub_assoc hpos] at hlt
        exact Nat.le_of_pred_lt hlt

/-! ## Both -/

/-- The accessors read every layer of a pass where the kernel stored it exactly when the pass
    fills the capacities and its indices fit an `int`. -/
theorem readsBack_iff (c : Capture) (p : Pass) :
    c.ReadsBack p ↔ c.AttnFits p ∧ c.HiddenFits p := by
  constructor
  · intro h
    exact ⟨fits_of_attnReadsBack h.1, fits_of_hiddenReadsBack h.2⟩
  · intro h
    exact ⟨attnReadsBack_of_fits h.1, hiddenReadsBack_of_fits h.2⟩

/-- Two layers of one head in buffers for four tokens. -/
def fourTokens : Capture where
  mkNLayers := 2
  mkNHeads := 1
  hiddenSize := 1
  mkSeqCap := 4
  mkKvCap := 4
  attnWeights := some 0
  hiddenStates := some 1000

-- a prompt of two tokens: layer 1 is stored 16 bytes into the buffer and read at 64
example : (fourTokens.attnStores ⟨2, 2⟩).filter (fun s => s.2 = ⟨1, 0, 0, 0⟩) =
    [(16, ⟨1, 0, 0, 0⟩)] ∧ fourTokens.getAttentionWeights 1 = (some 64, 64) := by
  decide +kernel

theorem short_prompt_misread : ¬ fourTokens.ReadsBack ⟨2, 2⟩ := by
  intro h
  obtain ⟨ptr, size, hget, hsize, -⟩ := h.1 0 rfl _ (List.Perm.refl _) 1 (by decide)
  cases hget
  exact absurd hsize (by decide)

end Capture

end TruellmEngine.Cuda
