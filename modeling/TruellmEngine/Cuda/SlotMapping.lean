/-
  The device block table and the slot mapping of a sequence (`get_device_block_table`,
  `get_device_slot_mapping`).

  The staging buffer has `max_blocks_per_seq_` entries, 2048 at most; nothing keeps a table
  from growing beyond that but an `assert` at the copy. `fits_iff` says which operations do.
  The other two properties hold by the allocator's ledger and by the count of blocks of a
  call: slots of blocks with one owner are apart (`slots_apart`), and `run_forward` asks for
  slots of blocks that the sequence has (`askedInBlocks`).
-/
import TruellmEngine.Cuda.FailureAtomicity
import TruellmEngine.Cuda.BlockCount
import TruellmEngine.Cuda.PoolLayout

namespace TruellmEngine.Cuda

open Lib

namespace Allocator

variable {α : Type*} {a a' : Allocator α} {seqId s : UInt64} {leak : Nat → Nat}

/-- `max_blocks_per_seq_`. -/
def maxBlocksPerSeq (a : Allocator α) : Nat := min a.maxNumBlocks 2048

/-- What is copied to the staging buffer: the block table, padded with -1. -/
def getDeviceBlockTable (a : Allocator α) (seqId : UInt64) : Option (List Int) :=
  (a.blockTables.lookup seqId).map fun bt =>
    bt.map Int.ofNat ++ List.replicate (a.maxBlocksPerSeq - bt.length) (-1)

/-- The slot of position `pos` in a block table. -/
def slotIn (a : Allocator α) (bt : List Nat) (pos : Nat) : Int :=
  let blkIdx := (pos : Int).tdiv a.blockSize
  let blkOff := (pos : Int).tmod a.blockSize
  toInt (toInt (bt.getD blkIdx.toNat 0 * a.blockSize) + blkOff)

def getDeviceSlotMapping (a : Allocator α) (seqId : UInt64) (numTokens seqStartPos : Nat) :
    Option (List Int) :=
  (a.blockTables.lookup seqId).map fun bt =>
    (List.range numTokens).map fun i => a.slotIn bt (seqStartPos + i)

/-- Every block table fits the staging buffer. -/
def Fits (a : Allocator α) : Prop :=
  ∀ s table, a.getDeviceBlockTable s = some table → table.length = a.maxBlocksPerSeq

/-- The operation takes no table beyond the staging buffer. -/
def GrowsWithin (a : Allocator α) : Op α → Prop
  | .allocate seqId n => a.blockTables.lookup seqId = none →
      a.promptBlocks n ≤ a.freeList.length → a.promptBlocks n ≤ a.maxBlocksPerSeq
  | .extend seqId => (a.blockTables.lookup seqId).isSome = true → a.freeList ≠ [] →
      (a.tableOf seqId).length < a.maxBlocksPerSeq
  | .reload seqId => ∀ n, a.evictedSeqs.lookup seqId = some n →
      (a.tableOf seqId).length + min n a.freeList.length ≤ a.maxBlocksPerSeq
  | _ => True

/-- Position `pos` of the sequence lies in a block of its table, which no other table has. -/
def OwnsAt (a : Allocator α) (seqId : UInt64) (pos : Nat) : Prop :=
  ∃ bt b, a.blockTables.lookup seqId = some bt ∧
    bt[((pos : Int).tdiv a.blockSize).toNat]? = some b ∧ a.blockRefCounts b = 1

/-- Different positions in blocks with one owner have different slots, inside the pool. -/
def SlotsApart (a : Allocator α) : Prop :=
  ∀ s p s' p' slot slot', a.OwnsAt s p → a.OwnsAt s' p' →
    a.getDeviceSlotMapping s 1 p = some [slot] → a.getDeviceSlotMapping s' 1 p' = some [slot'] →
      (0 ≤ slot ∧ slot < a.maxNumBlocks * a.blockSize) ∧ ((s, p) ≠ (s', p') → slot ≠ slot')

/-! ## The staging buffer -/

theorem fits_iff_tables : Fits a ↔ ∀ s, (a.tableOf s).length ≤ a.maxBlocksPerSeq := by
  constructor
  · intro h s
    unfold tableOf
    cases hbt : a.blockTables.lookup s with
    | none => exact Nat.zero_le _
    | some bt =>
      have hlen := h s (bt.map Int.ofNat ++ List.replicate (a.maxBlocksPerSeq - bt.length) (-1))
        (by rw [getDeviceBlockTable, hbt]; rfl)
      rw [List.length_append, List.length_map, List.length_replicate] at hlen
      rw [Option.getD_some]
      omega
  · intro h s table htable
    obtain ⟨bt, hbt, rfl⟩ := Option.map_eq_some_iff.mp htable
    have hle := h s
    rw [tableOf, hbt, Option.getD_some] at hle
    rw [List.length_append, List.length_map, List.length_replicate]
    omega

/-- The allocation loop takes the blocks on top of the free stack, in order. -/
theorem allocateLoop_takes {left : Nat} {bt ids : List Nat}
    (h : a.allocateLoop left bt = (some ids, a')) : ids = bt ++ a.freeList.take left := by
  induction left generalizing a bt with
  | zero =>
    cases h
    rw [List.take_zero, List.append_nil]
  | succ left ih =>
    unfold allocateLoop at h
    cases ha : a.allocBlockLocked with
    | none =>
      rw [ha] at h
      cases h
    | some r =>
      obtain ⟨id, a₁⟩ := r
      rw [ha] at h
      obtain ⟨rest, hfree, rfl⟩ := allocBlockLocked_some ha
      rw [ih h, hfree, List.take_succ_cons, List.append_assoc]
      rfl

/-- The reload loop appends the blocks on top of the free stack, also when it is refused. -/
theorem reloadLoop_takes (seqId : UInt64) (left i : Nat) (a : Allocator α) :
    (reloadLoop seqId a left i).2.tableOf seqId =
      a.tableOf seqId ++ a.freeList.take left := by
  induction left generalizing a i with
  | zero => rw [List.take_zero, List.append_nil]; rfl
  | succ left ih =>
    unfold reloadLoop
    cases ha : a.allocBlockLocked with
    | none =>
      unfold allocBlockLocked at ha
      split at ha
      · rename_i hnil
        rw [hnil, List.take_nil, List.append_nil]
      · cases ha
    | some r =>
      obtain ⟨id, a₁⟩ := r
      obtain ⟨rest, hfree, rfl⟩ := allocBlockLocked_some ha
      dsimp only
      rw [ih, hfree, List.take_succ_cons]
      simp [tableOf]

/-- The block table of `s` behind an operation. -/
def tableAfter (a : Allocator α) (op : Op α) (s : UInt64) : List Nat :=
  match op with
  | .allocate seqId n =>
    if s = seqId ∧ a.blockTables.lookup seqId = none ∧ a.promptBlocks n ≤ a.freeList.length then
      a.freeList.take (a.promptBlocks n)
    else a.tableOf s
  | .extend seqId =>
    if s = seqId ∧ (a.blockTables.lookup seqId).isSome = true then
      a.tableOf s ++ a.freeList.take 1
    else a.tableOf s
  | .free seqId => if s = seqId then [] else a.tableOf s
  | .copy srcId dstId =>
    if s = dstId ∧ (a.blockTables.lookup srcId).isSome = true then a.tableOf srcId
    else a.tableOf s
  | .evict seqId _ =>
    if s = seqId ∧ a.evictedSeqs.lookup seqId = none then [] else a.tableOf s
  | .reload seqId =>
    if s = seqId then a.tableOf s ++ a.freeList.take ((a.evictedSeqs.lookup seqId).getD 0)
    else a.tableOf s
  | .write _ _ => a.tableOf s

theorem OtherTables.tableOf (h : OtherTables seqId a a') (hs : s ≠ seqId) :
    a'.tableOf s = a.tableOf s := by
  unfold Allocator.tableOf
  rw [h.tables s hs]

theorem tableOf_none (h : a.blockTables.lookup s = none) : a.tableOf s = [] := by
  rw [tableOf, h]
  rfl

theorem tableOf_insert (m : AList fun _ : UInt64 => List Nat) (bt : List Nat) :
    ({ a with blockTables := m.insert s bt } : Allocator α).tableOf s = bt := by
  simp [tableOf]

theorem allocateSequence_table (a : Allocator α) (seqId : UInt64) (n : Int) :
    (a.allocateSequence seqId n).2.tableOf seqId =
      if a.blockTables.lookup seqId = none ∧ a.promptBlocks n ≤ a.freeList.length then
        a.freeList.take (a.promptBlocks n)
      else a.tableOf seqId := by
  have hcount : (a.promptBlocks n : Int) = max ((n + a.blockSize - 1).tdiv a.blockSize) 1 := by
    unfold promptBlocks
    omega
  unfold allocateSequence
  cases hbt : a.blockTables.lookup seqId with
  | some bt => simp
  | none =>
    rw [if_neg (by simp)]
    dsimp only
    by_cases hfree : a.promptBlocks n ≤ a.freeList.length
    · have hloop := allocateLoop_isSome (a := a) [] hfree
      rw [if_neg (by omega), if_pos ⟨rfl, hfree⟩]
      unfold promptBlocks at hloop
      split
      · rename_i a₁ hr
        rw [hr] at hloop
        cases hloop
      · rename_i ids a₁ hr
        rw [tableOf_insert, allocateLoop_takes hr]
        rfl
    · rw [if_pos (by omega), if_neg fun h => hfree h.2]

theorem extendSequence_table (a : Allocator α) (seqId : UInt64) :
    (a.extendSequence seqId).2.tableOf seqId =
      if (a.blockTables.lookup seqId).isSome = true then a.tableOf seqId ++ a.freeList.take 1
      else a.tableOf seqId := by
  unfold extendSequence
  cases hbt : a.blockTables.lookup seqId with
  | none => simp
  | some bt =>
    rw [if_pos Option.isSome_some]
    unfold allocBlockLocked
    cases hfree : a.freeList with
    | nil => rw [List.take_nil, List.append_nil]
    | cons id rest =>
      simp [tableOf, hbt]

theorem freeSequence_table (a : Allocator α) (seqId : UInt64) :
    (a.freeSequence seqId).tableOf seqId = [] := by
  unfold freeSequence
  split
  · rename_i hnone
    exact tableOf_none hnone
  · simp [tableOf]

theorem copySequence_table (a : Allocator α) (srcId dstId : UInt64) :
    (a.copySequence srcId dstId).2.tableOf dstId =
      if (a.blockTables.lookup srcId).isSome = true then a.tableOf srcId
      else a.tableOf dstId := by
  unfold copySequence
  cases hbt : a.blockTables.lookup srcId with
  | none => simp
  | some bt => simp [tableOf, hbt]

/-- An eviction touches one table. -/
theorem evictSequence_table (a : Allocator α) (seqId : UInt64) (fresh : Nat → α) :
    OtherTables seqId a (a.evictSequence seqId fresh).2 ∧
      (a.evictSequence seqId fresh).2.tableOf seqId =
        if a.evictedSeqs.lookup seqId = none then [] else a.tableOf seqId := by
  cases hbt : a.blockTables.lookup seqId with
  | none =>
    simp only [evictSequence, hbt]
    refine ⟨⟨rfl, rfl, fun _ _ => rfl⟩, ?_⟩
    rw [tableOf_none hbt, ite_self]
  | some bt =>
    cases hev : a.evictedSeqs.lookup seqId with
    | some n =>
      simp only [evictSequence, hbt, hev, Option.isSome_some, if_true]
      exact ⟨⟨rfl, rfl, fun _ _ => rfl⟩, by simp⟩
    | none =>
      obtain ⟨-, htables, -, -⟩ := evictSequence_first hbt hev fresh
      have hsame := (growHostBuf_same a bt.length fresh).trans (evictLoop_same bt 0 _)
      rw [if_pos rfl, tableOf, htables, AList.lookup_insert]
      refine ⟨?_, rfl⟩
      rw [evictSequence_some hbt hev]
      exact ⟨hsame.blocks, hsame.size, fun s hs => AList.lookup_insert_ne hs⟩

/-- A reload touches one table. -/
theorem reloadSequence_table (a : Allocator α) (seqId : UInt64) :
    OtherTables seqId a (a.reloadSequence seqId).2 ∧
      (a.reloadSequence seqId).2.tableOf seqId =
        a.tableOf seqId ++ a.freeList.take ((a.evictedSeqs.lookup seqId).getD 0) := by
  cases hev : a.evictedSeqs.lookup seqId with
  | none =>
    unfold reloadSequence
    rw [hev]
    exact ⟨⟨rfl, rfl, fun _ _ => rfl⟩, by simp⟩
  | some n =>
    have honly := (touched_onlyTable a seqId).trans
      (reloadLoop_spec seqId n 0 (a.touched seqId)).1
    have htable := reloadLoop_takes seqId n 0 (a.touched seqId)
    have htouched : (a.touched seqId).tableOf seqId = a.tableOf seqId :=
      tableOf_insert a.blockTables (a.tableOf seqId)
    rw [htouched] at htable
    rw [reloadSequence_some hev, Option.getD_some]
    dsimp only
    split
    · exact ⟨⟨honly.blocks, honly.size, honly.tables⟩, htable⟩
    · exact ⟨honly.toOtherTables, htable⟩

/-- Every operation keeps the dimensions of the pool, and leaves the tables of `tableAfter`. -/
theorem step_tables {op : Op α} (hst : step a op = some a') :
    a'.maxNumBlocks = a.maxNumBlocks ∧ a'.blockSize = a.blockSize ∧
      ∀ s, a'.tableOf s = a.tableAfter op s := by
  have hone : ∀ {q : UInt64} {b : Allocator α}, OtherTables q a b →
      b.tableOf q = a.tableAfter op q → (∀ s, s ≠ q → a.tableAfter op s = a.tableOf s) →
      b.maxNumBlocks = a.maxNumBlocks ∧ b.blockSize = a.blockSize ∧
        ∀ s, b.tableOf s = a.tableAfter op s := by
    intro q b hother hown hrest
    refine ⟨hother.blocks, hother.size, ?_⟩
    intro s
    by_cases hs : s = q
    · rw [hs, hown]
    · rw [OtherTables.tableOf hother hs, hrest s hs]
  cases op with
  | allocate seqId n =>
    cases hst
    apply hone (allocateSequence_onlyTable a seqId n).toOtherTables
    · rw [allocateSequence_table]
      simp only [tableAfter, true_and]
    · exact fun s hs => if_neg fun h => hs h.1
  | extend seqId =>
    cases hst
    apply hone (extendSequence_onlyTable a seqId).toOtherTables
    · rw [extendSequence_table]
      simp only [tableAfter, true_and]
    · exact fun s hs => if_neg fun h => hs h.1
  | free seqId =>
    cases hst
    apply hone (freeSequence_otherTables a seqId)
    · rw [freeSequence_table]
      simp only [tableAfter, if_true]
    · exact fun s hs => if_neg hs
  | copy srcId dstId =>
    cases hst
    apply hone (copySequence_onlyTable a srcId dstId).toOtherTables
    · rw [copySequence_table]
      simp only [tableAfter, true_and]
    · exact fun s hs => if_neg fun h => hs h.1
  | evict seqId fresh =>
    cases hst
    apply hone (evictSequence_table a seqId fresh).1
    · rw [(evictSequence_table a seqId fresh).2]
      simp only [tableAfter, true_and]
    · exact fun s hs => if_neg fun h => hs h.1
  | reload seqId =>
    cases hst
    apply hone (reloadSequence_table a seqId).1
    · rw [(reloadSequence_table a seqId).2]
      simp only [tableAfter, if_true]
    · exact fun s hs => if_neg hs
  | write block x =>
    cases hst
    exact ⟨rfl, rfl, fun _ => rfl⟩

/-- An old table or none, with free blocks behind it if the operation takes any for it. -/
def Grown (a : Allocator α) (op : Op α) (table : List Nat) : Prop :=
  ∃ old k, table = old ++ a.freeList.take k ∧ (old = [] ∨ ∃ q, old = a.tableOf q) ∧
    (k = 0 ∨ (GrowsWithin a op → old.length + min k a.freeList.length ≤ a.maxBlocksPerSeq))

theorem grown_nil (a : Allocator α) (op : Op α) : Grown a op [] :=
  ⟨[], 0, rfl, .inl rfl, .inl rfl⟩

theorem grown_table (a : Allocator α) (op : Op α) (q : UInt64) : Grown a op (a.tableOf q) :=
  ⟨a.tableOf q, 0, (List.append_nil _).symm, .inr ⟨q, rfl⟩, .inl rfl⟩

theorem tableAfter_grown (a : Allocator α) (op : Op α) (s : UInt64) :
    Grown a op (a.tableAfter op s) := by
  have hkept := grown_table a op s
  cases op with
  | allocate seqId n =>
    unfold tableAfter
    dsimp only
    split
    · rename_i hnew
      refine ⟨[], a.promptBlocks n, rfl, .inl rfl, .inr fun hok => ?_⟩
      rw [List.length_nil, Nat.zero_add]
      exact (Nat.min_le_left _ _).trans (hok hnew.2.1 hnew.2.2)
    · exact hkept
  | extend seqId =>
    unfold tableAfter
    dsimp only
    split
    · rename_i hsome
      by_cases hfree : a.freeList = []
      · rw [hfree, List.take_nil, List.append_nil]
        exact hkept
      · refine ⟨a.tableOf s, 1, rfl, .inr ⟨s, rfl⟩, .inr fun hok => ?_⟩
        have hlt := hok hsome.2 hfree
        rw [← hsome.1] at hlt
        exact (Nat.add_le_add_left (Nat.min_le_left _ _) _).trans hlt
    · exact hkept
  | free seqId => exact iteInduction (fun _ => grown_nil a _) fun _ => hkept
  | copy srcId dstId => exact iteInduction (fun _ => grown_table a _ srcId) fun _ => hkept
  | evict seqId fresh => exact iteInduction (fun _ => grown_nil a _) fun _ => hkept
  | reload seqId =>
    unfold tableAfter
    dsimp only
    split
    · rename_i hs
      refine ⟨a.tableOf s, _, rfl, .inr ⟨s, rfl⟩, ?_⟩
      cases hev : a.evictedSeqs.lookup seqId with
      | none => exact .inl rfl
      | some n => exact .inr fun hok => hs ▸ hok n hev
    · exact hkept
  | write block x => exact hkept

/-! ## The blocks of a table are its own -/

/-- A block of a table is one of the pool, and not free. -/
theorem Keeps.mem_table (h : Keeps leak a) {b : Nat} (hb : b ∈ a.tableOf s) :
    b < a.maxNumBlocks ∧ b ∉ a.freeList := by
  have hpos : 0 < a.occurrences b := by
    unfold tableOf at hb
    cases hbt : a.blockTables.lookup s with
    | none =>
      rw [hbt] at hb
      cases hb
    | some bt =>
      rw [hbt, Option.getD_some] at hb
      exact Nat.lt_of_lt_of_le (List.count_pos_iff.mpr hb) (le_total (List.count b) hbt)
  constructor
  · by_contra hge
    have hnone := h.range b (Nat.le_of_not_lt hge)
    omega
  · intro hfree
    have hnone := (Ledger.of_free h hfree).2
    omega

/-- What every state of a run has: a ledger up to leaks, and no block twice in a table. -/
structure Tidy (a : Allocator α) : Prop where
  ledger : ∃ leak, Keeps leak a
  nodup : ∀ s, (a.tableOf s).Nodup

theorem Tidy.append (h : Tidy a) (s : UInt64) (k : Nat) :
    (a.tableOf s ++ a.freeList.take k).Nodup := by
  obtain ⟨leak, hledger⟩ := h.ledger
  refine List.nodup_append.mpr ⟨h.nodup s, (List.take_sublist k _).nodup hledger.nodup, ?_⟩
  rintro b hb b' hb' rfl
  exact (hledger.mem_table hb).2 (List.mem_of_mem_take hb')

theorem Tidy.step (h : Tidy a) {op : Op α} (hst : step a op = some a') : Tidy a' := by
  obtain ⟨leak, hledger⟩ := h.ledger
  refine ⟨⟨_, step_keeps hledger hst⟩, ?_⟩
  intro s
  rw [(step_tables hst).2.2 s]
  obtain ⟨_, k, htable, rfl | ⟨q, rfl⟩, -⟩ := a.tableAfter_grown op s
  · rw [htable, List.nil_append]
    exact (List.take_sublist _ _).nodup hledger.nodup
  · rw [htable]
    exact h.append q k

theorem tidy_init (blockSize : Int) (maxNumBlocks : Nat) (zero : α) :
    Tidy (init blockSize maxNumBlocks zero) :=
  ⟨⟨_, keeps_init blockSize maxNumBlocks zero⟩, fun _ => List.nodup_nil⟩

/-- No table has more blocks than the pool. -/
theorem Tidy.length_le (h : Tidy a) (s : UInt64) : (a.tableOf s).length ≤ a.maxNumBlocks := by
  obtain ⟨leak, hledger⟩ := h.ledger
  have hsub : a.tableOf s ⊆ List.range a.maxNumBlocks :=
    fun b hb => List.mem_range.mpr (hledger.mem_table hb).1
  have hle := (List.subperm_of_subset (h.nodup s) hsub).length_le
  rwa [List.length_range] at hle

/-! ## Growth -/

theorem fits_step (h : Fits a) {op : Op α} (hok : GrowsWithin a op) (hst : step a op = some a') :
    Fits a' := by
  obtain ⟨hblocks, -, htables⟩ := step_tables hst
  have hcap : a'.maxBlocksPerSeq = a.maxBlocksPerSeq := by rw [maxBlocksPerSeq, hblocks]; rfl
  rw [fits_iff_tables] at h ⊢
  intro s
  obtain ⟨old, k, htable, hold, hgrows⟩ := a.tableAfter_grown op s
  rw [htables s, hcap, htable, List.length_append, List.length_take]
  rcases hgrows with rfl | hgrows
  · rw [Nat.zero_min, Nat.add_zero]
    rcases hold with rfl | ⟨q, rfl⟩
    · exact Nat.zero_le _
    · exact h q
  · exact hgrows hok

/-- An operation that grows a table beyond the staging buffer. -/
theorem not_fits_step {op : Op α} (hbad : ¬ GrowsWithin a op) (hst : step a op = some a') :
    ¬ Fits a' := by
  obtain ⟨hblocks, -, htables⟩ := step_tables hst
  have hcap : a'.maxBlocksPerSeq = a.maxBlocksPerSeq := by rw [maxBlocksPerSeq, hblocks]; rfl
  have hlong : ∀ s, a.maxBlocksPerSeq < (a.tableAfter op s).length → ¬ Fits a' := by
    intro s hlt hfits
    have hle := fits_iff_tables.mp hfits s
    rw [htables s, hcap] at hle
    exact Nat.lt_irrefl _ (Nat.lt_of_lt_of_le hlt hle)
  cases op with
  | allocate seqId n =>
    simp only [GrowsWithin, Classical.not_imp, Nat.not_le] at hbad
    obtain ⟨hnew, hfree, hgt⟩ := hbad
    apply hlong seqId
    rw [tableAfter, if_pos ⟨rfl, hnew, hfree⟩, List.length_take, Nat.min_eq_left hfree]
    exact hgt
  | extend seqId =>
    simp only [GrowsWithin, Classical.not_imp, Nat.not_lt] at hbad
    obtain ⟨hsome, hfree, hge⟩ := hbad
    have hone : 1 ≤ a.freeList.length := List.length_pos_of_ne_nil hfree
    apply hlong seqId
    rw [tableAfter, if_pos ⟨rfl, hsome⟩, List.length_append, List.length_take,
      Nat.min_eq_left hone]
    exact Nat.lt_succ_of_le hge
  | reload seqId =>
    simp only [GrowsWithin, not_forall, Nat.not_le] at hbad
    obtain ⟨n, hev, hgt⟩ := hbad
    apply hlong seqId
    rw [tableAfter, if_pos rfl, List.length_append, List.length_take, hev]
    exact hgt
  | free seqId => exact absurd trivial hbad
  | copy srcId dstId => exact absurd trivial hbad
  | evict seqId fresh => exact absurd trivial hbad
  | write block x => exact absurd trivial hbad

/-- The tables fit the staging buffer in all states of a run exactly when the run grows none
    beyond it. -/
theorem fits_iff (blockSize : Int) (maxNumBlocks : Nat) (zero : α) (ops : List (Op α)) :
    AllStates step Fits (init blockSize maxNumBlocks zero) ops ↔
      AllSteps step GrowsWithin (init blockSize maxNumBlocks zero) ops := by
  apply allStates_iff_allSteps (I := Fits) (fun _ h => h)
  · exact fun a op a' h hok hst => fits_step h hok hst
  · exact fun a op a' _ hbad hst => not_fits_step hbad hst
  · exact fits_iff_tables.mpr fun _ => Nat.zero_le _

/-! ## Slots -/

/-- A block with one owner is in one table. -/
theorem Keeps.sole_table (h : Keeps leak a) {b : Nat} (hone : a.blockRefCounts b = 1)
    {bt bt' : List Nat} {s' : UInt64} (hbt : a.blockTables.lookup s = some bt)
    (hbt' : a.blockTables.lookup s' = some bt') (hb : b ∈ bt) (hb' : b ∈ bt') : s = s' := by
  by_contra hne
  have hrefs := h.refs b
  rw [hone] at hrefs
  have hsplit := occurrences_erase hbt b
  have hrest : bt'.count b ≤ total (List.count b) (a.blockTables.erase s) :=
    le_total (List.count b) (by rw [AList.lookup_erase_ne (Ne.symm hne), hbt'])
  have hpos : 0 < bt.count b := List.count_pos_iff.mpr hb
  have hpos' : 0 < bt'.count b := List.count_pos_iff.mpr hb'
  omega

/-- The slot of a position that the table covers, in a pool whose slots are `int`s. -/
theorem slotIn_eq {size b pos : Nat} {bt : List Nat} (hpos : 0 < size)
    (hsize : a.blockSize = size) (hints : a.maxNumBlocks * size ≤ 2 ^ 31)
    (hb : bt[pos / size]? = some b) (hlt : b < a.maxNumBlocks) :
    a.slotIn bt pos = (b * size + pos % size : Nat) := by
  have hoff : pos % size < size := Nat.mod_lt pos hpos
  have hblock : (b + 1) * size ≤ a.maxNumBlocks * size := Nat.mul_le_mul_right size hlt
  rw [Nat.add_mul, Nat.one_mul] at hblock
  have hentry : bt.getD (pos / size) 0 = b := by
    rw [List.getD_eq_getElem?_getD, hb, Option.getD_some]
  unfold slotIn
  dsimp only
  rw [hsize, ← Int.ofNat_tdiv, ← Int.ofNat_tmod, Int.toNat_natCast, hentry, ← Int.natCast_mul,
    Geometry.toInt_of_lt (by omega), ← Int.natCast_add, Geometry.toInt_of_lt (by omega)]

theorem Tidy.slotsApart (h : Tidy a) {size : Nat} (hpos : 0 < size) (hsize : a.blockSize = size)
    (hints : a.maxNumBlocks * size ≤ 2 ^ 31) : SlotsApart a := by
  obtain ⟨leak, hledger⟩ := h.ledger
  have hslot : ∀ {s p slot}, a.OwnsAt s p → a.getDeviceSlotMapping s 1 p = some [slot] →
      ∃ bt b, a.blockTables.lookup s = some bt ∧ bt[p / size]? = some b ∧
        a.blockRefCounts b = 1 ∧ b < a.maxNumBlocks ∧
        slot = (b * size + p % size : Nat) := by
    rintro s p slot ⟨bt, b, hbt, hb, hone⟩ hmapped
    rw [hsize, ← Int.ofNat_tdiv, Int.toNat_natCast] at hb
    have htable : a.tableOf s = bt := by rw [tableOf, hbt, Option.getD_some]
    have hlt : b < a.maxNumBlocks :=
      (hledger.mem_table (s := s) (htable ▸ List.mem_of_getElem? hb)).1
    refine ⟨bt, b, hbt, hb, hone, hlt, ?_⟩
    rw [getDeviceSlotMapping, hbt] at hmapped
    have hlist : [a.slotIn bt (p + 0)] = [slot] := Option.some.inj hmapped
    rw [← List.head_eq_of_cons_eq hlist, Nat.add_zero, slotIn_eq hpos hsize hints hb hlt]
  intro s p s' p' slot slot' howns howns' hmapped hmapped'
  obtain ⟨bt, b, hbt, hb, hone, hlt, rfl⟩ := hslot howns hmapped
  obtain ⟨bt', b', hbt', hb', hone', hlt', rfl⟩ := hslot howns' hmapped'
  have hoff : p % size < size := Nat.mod_lt p hpos
  have hoff' : p' % size < size := Nat.mod_lt p' hpos
  constructor
  · have hblock : (b + 1) * size ≤ a.maxNumBlocks * size := Nat.mul_le_mul_right size hlt
    rw [Nat.add_mul, Nat.one_mul] at hblock
    rw [hsize]
    omega
  · intro hne heq
    apply hne
    have hboth : b * size + p % size = b' * size + p' % size := by exact_mod_cast heq
    have hdiv : ∀ c r, r < size → (c * size + r) / size = c := by
      intro c r hr
      rw [Nat.mul_comm, Nat.mul_add_div hpos, Nat.div_eq_of_lt hr, Nat.add_zero]
    have hbb : b = b' := by
      rw [← hdiv b _ hoff, hboth, hdiv b' _ hoff']
    subst hbb
    have hss : s = s' := hledger.sole_table hone hbt hbt' (List.mem_of_getElem? hb)
      (List.mem_of_getElem? hb')
    subst hss
    rw [hbt, Option.some.injEq] at hbt'
    subst hbt'
    have hnodup : bt.Nodup := by
      have htable := h.nodup s
      rwa [tableOf, hbt, Option.getD_some] at htable
    have hindex : p / size = p' / size :=
      (List.getElem?_inj (List.getElem?_eq_some_iff.mp hb).1 hnodup).mp (hb.trans hb'.symm)
    have hmod : p % size = p' % size := Nat.add_left_cancel hboth
    rw [← Nat.div_add_mod p size, hindex, hmod, Nat.div_add_mod]

end Allocator

/-! ## What `run_forward` asks for -/

open Allocator

variable {ι Cell Logits Capture Book : Type*}

/-- Each pass of the legacy path asks for the slot of the next position, which is in a block
    that the sequence has. -/
def AskedInBlocks (e : Engine Cell Logits Capture Book) (seqId : ι → UInt64)
    (w : Calls ι Cell Logits Capture Book) : Prop :=
  e.useMegakernel = false → ∀ i, (w.locals i).phase.forwards = true →
    ∃ slot, w.shared.alloc.getDeviceSlotMapping (seqId i) 1 (w.locals i).seqPos = some [slot] ∧
      ((w.locals i).seqPos : Int).tdiv w.shared.alloc.blockSize <
        (w.shared.alloc.tableOf (seqId i)).length

theorem Accounted.askedInBlocks {e : Engine Cell Logits Capture Book} {seqId : ι → UInt64}
    {w : Calls ι Cell Logits Capture Book} (h : Accounted e seqId w) : AskedInBlocks e seqId w := by
  intro hmk i hforwards
  have hlive : (w.locals i).phase.live = true := by
    cases hphase : (w.locals i).phase with
    | prefill | decode => rfl
    | allocate | reduce | extend k | sample | decodeExtend | release | returned =>
      rw [hphase] at hforwards
      cases hforwards
  obtain ⟨bt, hbt⟩ := Option.isSome_iff_exists.mp ((h.inv.live i).trans hlive)
  have hcount := h.counted i
  have hreserved := blocksFor_pos (e := e) (w.locals i).req.tokens.length
  have hlt : (w.locals i).seqPos / e.blockSize < (w.shared.alloc.tableOf (seqId i)).length := by
    unfold Counted at hcount
    cases hphase : (w.locals i).phase with
    | prefill =>
      rw [hphase] at hcount
      obtain ⟨hn, hpos⟩ := hcount
      rw [hmk, if_neg Bool.false_ne_true] at hpos
      rw [nextLen_legacy hmk hphase hpos, Nat.add_sub_cancel] at hn
      generalize (w.locals i).seqPos / e.blockSize = k at hn ⊢
      omega
    | decode =>
      rw [hphase] at hcount
      obtain ⟨hn, -⟩ := hcount
      generalize (w.locals i).seqPos / e.blockSize = k at hn ⊢
      omega
    | allocate | reduce | extend k | sample | decodeExtend | release | returned =>
      rw [hphase] at hforwards
      cases hforwards
  refine ⟨w.shared.alloc.slotIn bt (w.locals i).seqPos, ?_, ?_⟩
  · rw [getDeviceSlotMapping, hbt]
    rfl
  · rw [h.inv.pool.size, ← Int.ofNat_tdiv]
    exact_mod_cast hlt

/-- For a pool of blocks of `e.blockSize` tokens. The tables fit the staging buffer in all
    states of a run exactly when no operation grows one beyond it, and always when the pool
    has 2048 blocks at most. Slots of blocks with one owner are apart and inside a pool of
    2^31 slots at most. And the forward passes of any interleaved calls ask for slots of
    blocks that their sequences have. -/
theorem slotMapping_bounds [DecidableEq ι] {α : Type*} (e : Engine Cell Logits Capture Book)
    (seqId : ι ↪ UInt64) (reqs : ι → GenerateRequest) (zero : α) (ops : List (Op α))
    (is : List ι) :
    (AllStates Allocator.step Fits (init e.blockSize e.maxNumBlocks zero) ops ↔
      AllSteps Allocator.step GrowsWithin (init e.blockSize e.maxNumBlocks zero) ops) ∧
    (e.maxNumBlocks ≤ 2048 →
      AllStates Allocator.step Fits (init e.blockSize e.maxNumBlocks zero) ops) ∧
    (e.maxNumBlocks * e.blockSize ≤ 2 ^ 31 →
      AllStates Allocator.step SlotsApart (init e.blockSize e.maxNumBlocks zero) ops) ∧
    AllStates (Threads.step (act e seqId)) (AskedInBlocks e seqId)
      (Threads.start (e.newDevice ι) (issued reqs)) is := by
  have htidy : AllStates Allocator.step
      (fun a => Tidy a ∧ a.maxNumBlocks = e.maxNumBlocks ∧ a.blockSize = e.blockSize)
      (init e.blockSize e.maxNumBlocks zero) ops := by
    refine allStates_of_kept ?_ ⟨tidy_init e.blockSize e.maxNumBlocks zero, rfl, rfl⟩ ops
    rintro a op a' ⟨h, hblocks, hsize⟩ hst
    obtain ⟨hblocks', hsize', -⟩ := step_tables hst
    exact ⟨h.step hst, hblocks'.trans hblocks, hsize'.trans hsize⟩
  refine ⟨fits_iff e.blockSize e.maxNumBlocks zero ops, ?_, ?_, ?_⟩
  · intro hsmall
    apply htidy.mono
    rintro a ⟨h, hblocks, -⟩
    rw [fits_iff_tables]
    intro s
    rw [maxBlocksPerSeq, hblocks, Nat.min_eq_left hsmall, ← hblocks]
    exact h.length_le s
  · intro hints
    apply htidy.mono
    rintro a ⟨h, hblocks, hsize⟩
    exact h.slotsApart e.blockSize_pos hsize (hblocks ▸ hints)
  · apply (accounted_run e seqId reqs is).mono
    exact fun w h => h.askedInBlocks

/-- A prompt of 2049 blocks, in a pool of 4096: the table is copied to 2048 entries. -/
theorem long_prompt_overruns :
    ¬ AllStates Allocator.step Fits (init 16 4096 ()) [.allocate 1 (2049 * 16)] := by
  intro h
  apply @not_fits_step _ (init 16 4096 ()) _ (.allocate 1 (2049 * 16)) _ rfl
  · exact (h.2 _ rfl)
  · intro hok
    have hfree : (init 16 4096 ()).promptBlocks (2049 * 16) ≤ 4096 := by decide +kernel
    have hle := hok rfl (by rwa [init, List.length_range])
    exact absurd hle (by decide +kernel)

end TruellmEngine.Cuda
