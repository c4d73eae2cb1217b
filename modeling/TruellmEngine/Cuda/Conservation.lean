/-
  Conservation of the pool's blocks.

  `Keeps leak a` is the ledger of the allocator: the reference count of each block is its
  number of occurrences in the block tables plus `leak`, and the free stack holds exactly
  the blocks without either. Every operation keeps it, and `leak` only changes when a copy
  overwrites a block table: the blocks of the old table keep their counts
  (`copySequence_keeps`).

  `conserved_iff`: no block is leaked, freed twice or owned while free along a run exactly
  when the run copies onto no sequence that has blocks. `copy_leaks` is such a copy.
-/
import TruellmEngine.Cuda.Allocator
import TruellmEngine.Lib.RefPool

namespace TruellmEngine.Cuda

open Lib

namespace Allocator

variable {α : Type*} {a : Allocator α} {leak extra : Nat → Nat}

/-- How often block `b` occurs in the block tables. -/
def occurrences (a : Allocator α) (b : Nat) : Nat := total (List.count b) a.blockTables

/-- The ledger of the pool, for a given count of uses. -/
def Balanced (a : Allocator α) (uses : Nat → Nat) : Prop :=
  Ledger a.maxNumBlocks a.blockRefCounts a.freeList uses

/-- Every use of a block is an occurrence in a table, but for `leak`. -/
def Keeps (leak : Nat → Nat) (a : Allocator α) : Prop :=
  a.Balanced fun b => a.occurrences b + leak b

/-! ## What the block operations leave alone -/

/-- Two states that differ in reference counts, free stack and host buffer only. -/
structure SameTables (a a' : Allocator α) : Prop where
  blocks : a'.maxNumBlocks = a.maxNumBlocks
  size : a'.blockSize = a.blockSize
  tables : a'.blockTables = a.blockTables
  evicted : a'.evictedSeqs = a.evictedSeqs
  pool : a'.kvCache = a.kvCache

theorem SameTables.refl (a : Allocator α) : SameTables a a := ⟨rfl, rfl, rfl, rfl, rfl⟩

theorem SameTables.trans {a b c : Allocator α} (h : SameTables a b) (h' : SameTables b c) :
    SameTables a c :=
  ⟨h'.blocks.trans h.blocks, h'.size.trans h.size, h'.tables.trans h.tables,
    h'.evicted.trans h.evicted, h'.pool.trans h.pool⟩

theorem freeBlockLocked_same (a : Allocator α) (id : Nat) :
    SameTables a (a.freeBlockLocked id) := by
  unfold freeBlockLocked
  split
  · exact ⟨rfl, rfl, rfl, rfl, rfl⟩
  · exact ⟨rfl, rfl, rfl, rfl, rfl⟩

theorem freeBlocks_same (bt : List Nat) (a : Allocator α) :
    SameTables a (bt.foldl freeBlockLocked a) := by
  induction bt generalizing a with
  | nil => exact SameTables.refl a
  | cons id bt ih => exact (freeBlockLocked_same a id).trans (ih _)

theorem allocBlockLocked_some {id : Nat} {a' : Allocator α}
    (h : a.allocBlockLocked = some (id, a')) :
    ∃ rest, a.freeList = id :: rest ∧ a' = { a with
      freeList := rest, blockRefCounts := Function.update a.blockRefCounts id 1 } := by
  unfold allocBlockLocked at h
  split at h
  · cases h
  · rename_i id' rest hf
    simp only [Option.some.injEq, Prod.mk.injEq] at h
    obtain ⟨rfl, rfl⟩ := h
    exact ⟨rest, hf, rfl⟩

theorem evictLoop_same (bt : List Nat) (i : Nat) (a : Allocator α) :
    SameTables a (evictLoop a bt i) := by
  induction bt generalizing i a with
  | nil => exact SameTables.refl a
  | cons phys bt ih =>
    have hcopy : SameTables a { a with
        evictionHostBuf := Function.update a.evictionHostBuf i (a.kvCache phys) } :=
      ⟨rfl, rfl, rfl, rfl, rfl⟩
    exact (hcopy.trans (freeBlockLocked_same _ phys)).trans (ih (i + 1) _)

/-- The host buffer is replaced by a larger one when `n` blocks do not fit. -/
def growHostBuf (a : Allocator α) (n : Nat) (fresh : Nat → α) : Allocator α :=
  if a.evictionBufBlocks < n then
    { a with evictionHostBuf := fresh, evictionBufBlocks := n * 2 }
  else a

theorem growHostBuf_same (a : Allocator α) (n : Nat) (fresh : Nat → α) :
    SameTables a (a.growHostBuf n fresh) := by
  unfold growHostBuf
  split
  · exact ⟨rfl, rfl, rfl, rfl, rfl⟩
  · exact SameTables.refl a

/-- An eviction does nothing, or grows the host buffer, runs the copy loop and empties the
    table. -/
theorem evictSequence_some {seqId : UInt64} {bt : List Nat}
    (hbt : a.blockTables.lookup seqId = some bt) (hev : a.evictedSeqs.lookup seqId = none)
    (fresh : Nat → α) :
    (a.evictSequence seqId fresh).2 = { evictLoop (a.growHostBuf bt.length fresh) bt 0 with
      evictedSeqs := a.evictedSeqs.insert seqId bt.length
      blockTables := a.blockTables.insert seqId [] } := by
  have hsame := (growHostBuf_same a bt.length fresh).trans (evictLoop_same bt 0 _)
  rw [← hsame.tables, ← hsame.evicted]
  simp only [evictSequence, hbt, hev, Option.isSome_none, Bool.false_eq_true, if_false]
  rfl

/-- Nothing is done without a table, and once a sequence is evicted. -/
theorem evictSequence_same_or (a : Allocator α) (seqId : UInt64) (fresh : Nat → α) :
    (a.evictSequence seqId fresh).2 = a ∨ ∃ bt, a.blockTables.lookup seqId = some bt ∧
      a.evictedSeqs.lookup seqId = none := by
  cases hbt : a.blockTables.lookup seqId with
  | none =>
    simp only [evictSequence, hbt]
    exact .inl trivial
  | some bt =>
    cases hev : a.evictedSeqs.lookup seqId with
    | some n =>
      simp only [evictSequence, hbt, hev, Option.isSome_some, if_true]
      exact .inl trivial
    | none => exact .inr ⟨bt, rfl, rfl⟩

theorem freeBlockLocked_host (a : Allocator α) (id : Nat) :
    (a.freeBlockLocked id).evictionHostBuf = a.evictionHostBuf := by
  unfold freeBlockLocked
  split
  · rfl
  · rfl

theorem freeBlocks_host (bt : List Nat) (a : Allocator α) :
    (bt.foldl freeBlockLocked a).evictionHostBuf = a.evictionHostBuf := by
  induction bt generalizing a with
  | nil => rfl
  | cons id bt ih => exact (ih _).trans (freeBlockLocked_host a id)

/-- The tables of the sequences other than `seqId` are as before. -/
structure OtherTables (seqId : UInt64) (a a' : Allocator α) : Prop where
  blocks : a'.maxNumBlocks = a.maxNumBlocks
  size : a'.blockSize = a.blockSize
  tables : ∀ s, s ≠ seqId → a'.blockTables.lookup s = a.blockTables.lookup s

/-- Moreover the evicted set and the host buffer are as before. -/
structure OnlyTable (seqId : UInt64) (a a' : Allocator α) : Prop
    extends OtherTables seqId a a' where
  evicted : a'.evictedSeqs = a.evictedSeqs
  host : a'.evictionHostBuf = a.evictionHostBuf

theorem OnlyTable.refl (seqId : UInt64) (a : Allocator α) : OnlyTable seqId a a :=
  ⟨⟨rfl, rfl, fun _ _ => rfl⟩, rfl, rfl⟩

theorem OnlyTable.trans {seqId : UInt64} {a b c : Allocator α} (h : OnlyTable seqId a b)
    (h' : OnlyTable seqId b c) : OnlyTable seqId a c :=
  ⟨⟨h'.blocks.trans h.blocks, h'.size.trans h.size,
      fun s hs => (h'.tables s hs).trans (h.tables s hs)⟩,
    h'.evicted.trans h.evicted, h'.host.trans h.host⟩

theorem allocateLoop_onlyTable (seqId : UInt64) (left : Nat) (bt : List Nat)
    (a : Allocator α) :
    OnlyTable seqId a (a.allocateLoop left bt).2 := by
  induction left generalizing a bt with
  | zero => exact OnlyTable.refl seqId a
  | succ left ih =>
    unfold allocateLoop
    cases ha : a.allocBlockLocked with
    | none =>
      have hsame := freeBlocks_same bt a
      exact ⟨⟨hsame.blocks, hsame.size, fun s _ => by rw [hsame.tables]⟩, hsame.evicted,
        freeBlocks_host bt a⟩
    | some r =>
      obtain ⟨id, a₁⟩ := r
      have hone : OnlyTable seqId a a₁ := by
        obtain ⟨rest, -, rfl⟩ := allocBlockLocked_some ha
        exact ⟨⟨rfl, rfl, fun _ _ => rfl⟩, rfl, rfl⟩
      exact hone.trans (ih (bt ++ [id]) a₁)

theorem allocateSequence_onlyTable (a : Allocator α) (seqId : UInt64) (n : Int) :
    OnlyTable seqId a (a.allocateSequence seqId n).2 := by
  unfold allocateSequence
  dsimp only
  split
  · exact OnlyTable.refl seqId a
  · split
    · exact OnlyTable.refl seqId a
    · have hloop := allocateLoop_onlyTable seqId
        (max ((n + a.blockSize - 1).tdiv a.blockSize) 1).toNat [] a
      split
      · rename_i a' hr
        rw [hr] at hloop
        exact hloop
      · rename_i bt a' hr
        rw [hr] at hloop
        exact hloop.trans ⟨⟨rfl, rfl, fun s hs => AList.lookup_insert_ne hs⟩, rfl, rfl⟩

theorem extendSequence_onlyTable (a : Allocator α) (seqId : UInt64) :
    OnlyTable seqId a (a.extendSequence seqId).2 := by
  unfold extendSequence
  split
  · exact OnlyTable.refl seqId a
  · split
    · exact OnlyTable.refl seqId a
    · rename_i id a' ha
      obtain ⟨rest, -, rfl⟩ := allocBlockLocked_some ha
      exact ⟨⟨rfl, rfl, fun s hs => AList.lookup_insert_ne hs⟩, rfl, rfl⟩

theorem copySequence_onlyTable (a : Allocator α) (srcId dstId : UInt64) :
    OnlyTable dstId a (a.copySequence srcId dstId).2 := by
  unfold copySequence
  split
  · exact OnlyTable.refl dstId a
  · exact ⟨⟨rfl, rfl, fun s hs => AList.lookup_insert_ne hs⟩, rfl, rfl⟩

theorem freeSequence_otherTables (a : Allocator α) (seqId : UInt64) :
    OtherTables seqId a (a.freeSequence seqId) := by
  unfold freeSequence
  split
  · exact ⟨rfl, rfl, fun _ _ => rfl⟩
  · rename_i bt hbt
    have hsame := freeBlocks_same bt a
    refine ⟨hsame.blocks, hsame.size, ?_⟩
    intro s hs
    dsimp only
    rw [AList.lookup_erase_ne hs, hsame.tables]

/-! ## The block operations on the ledger -/

variable {uses : Nat → Nat}

theorem Balanced.alloc (h : a.Balanced uses) {id : Nat} {a' : Allocator α}
    (ha : a.allocBlockLocked = some (id, a')) :
    a'.Balanced fun b => uses b + [id].count b := by
  obtain ⟨rest, hf, rfl⟩ := allocBlockLocked_some ha
  have hl : Ledger a.maxNumBlocks a.blockRefCounts (id :: rest) uses := hf ▸ h
  exact hl.take

theorem Balanced.freeBlock {id : Nat} (h : a.Balanced fun b => uses b + [id].count b) :
    (a.freeBlockLocked id).Balanced uses := by
  unfold freeBlockLocked
  split
  · rename_i hlast
    exact h.dropLast hlast
  · rename_i hmore
    exact h.drop hmore

theorem count_cons_add (id : Nat) (bt : List Nat) (b : Nat) :
    (id :: bt).count b = [id].count b + bt.count b := by
  rw [← List.count_append]
  rfl

theorem Balanced.freeBlocks {bt : List Nat} (h : a.Balanced fun b => uses b + bt.count b) :
    (bt.foldl freeBlockLocked a).Balanced uses := by
  induction bt generalizing a with
  | nil => exact h
  | cons id bt ih =>
    rw [List.foldl_cons]
    refine ih (Balanced.freeBlock (Ledger.congr h ?_))
    intro b
    have hsplit := count_cons_add id bt b
    omega

theorem Balanced.evictLoop {bt : List Nat} {i : Nat}
    (h : a.Balanced fun b => uses b + bt.count b) : (evictLoop a bt i).Balanced uses := by
  induction bt generalizing i a with
  | nil => exact h
  | cons phys bt ih =>
    refine ih (Balanced.freeBlock (Ledger.congr h ?_))
    intro b
    have hsplit := count_cons_add phys bt b
    omega

/-! ## The operations on sequences -/

/-- The blocks of a table are uses that move out when its entry is erased or replaced. -/
theorem occurrences_erase {seqId : UInt64} {bt : List Nat}
    (h : a.blockTables.lookup seqId = some bt) (b : Nat) :
    total (List.count b) (a.blockTables.erase seqId) + bt.count b = a.occurrences b :=
  total_erase (List.count b) h

theorem keeps_init (blockSize : Int) (maxNumBlocks : Nat) (zero : α) :
    Keeps (fun _ => 0) (init blockSize maxNumBlocks zero) :=
  ledger_range maxNumBlocks

/-- The allocation loop adds the blocks it returns, and none when it fails. -/
theorem allocateLoop_balanced {left : Nat} {bt : List Nat} {res : Option (List Nat)}
    {a' : Allocator α} (h : a.Balanced fun b => uses b + bt.count b)
    (hr : a.allocateLoop left bt = (res, a')) :
    SameTables a a' ∧ a'.Balanced fun b => uses b + (res.getD []).count b := by
  induction left generalizing a bt with
  | zero =>
    cases hr
    exact ⟨SameTables.refl _, h⟩
  | succ left ih =>
    unfold allocateLoop at hr
    cases ha : a.allocBlockLocked with
    | none =>
      rw [ha] at hr
      cases hr
      exact ⟨freeBlocks_same bt a, h.freeBlocks⟩
    | some r =>
      obtain ⟨id, a₁⟩ := r
      rw [ha] at hr
      have hsame : SameTables a a₁ := by
        obtain ⟨rest, -, rfl⟩ := allocBlockLocked_some ha
        exact ⟨rfl, rfl, rfl, rfl, rfl⟩
      have hnext : a₁.Balanced fun b => uses b + (bt ++ [id]).count b := by
        refine Ledger.congr (h.alloc ha) ?_
        intro b
        rw [List.count_append]
        omega
      obtain ⟨hs, hb⟩ := ih hnext hr
      exact ⟨hsame.trans hs, hb⟩

theorem allocateSequence_keeps (h : Keeps leak a) (seqId : UInt64) (n : Int) :
    Keeps leak (a.allocateSequence seqId n).2 := by
  unfold allocateSequence
  split
  · exact h
  · rename_i hnew
    have hnone : a.blockTables.lookup seqId = none := by simpa using hnew
    dsimp only
    split
    · exact h
    · have hstart : a.Balanced fun b => (a.occurrences b + leak b) + ([] : List Nat).count b := h
      split
      · rename_i a' hr
        obtain ⟨hs, hb⟩ := allocateLoop_balanced hstart hr
        refine Ledger.congr hb ?_
        intro b
        simp [occurrences, hs.tables]
      · rename_i bt a' hr
        obtain ⟨hs, hb⟩ := allocateLoop_balanced hstart hr
        refine Ledger.congr hb ?_
        intro b
        have hocc : total (List.count b) (a'.blockTables.insert seqId bt) =
            a.occurrences b + bt.count b := by
          rw [hs.tables]
          exact total_insert_new (List.count b) bt hnone
        show a.occurrences b + leak b + bt.count b =
          total (List.count b) (a'.blockTables.insert seqId bt) + leak b
        omega

/-- A block appended to a table is one more occurrence. -/
theorem occurrences_append {seqId : UInt64} {bt : List Nat}
    (h : a.blockTables.lookup seqId = some bt) (id b : Nat) :
    total (List.count b) (a.blockTables.insert seqId (bt ++ [id])) =
      a.occurrences b + [id].count b := by
  have ht := total_insert (List.count b) (bt ++ [id]) h
  rw [List.count_append] at ht
  have ho : a.occurrences b = total (List.count b) a.blockTables := rfl
  omega

/-- A block moves from the free stack to the end of a table. -/
theorem Keeps.append (h : Keeps leak a) {seqId : UInt64} {bt : List Nat}
    (hbt : a.blockTables.lookup seqId = some bt) {id : Nat} {a' : Allocator α}
    (ha : a.allocBlockLocked = some (id, a')) :
    Keeps leak { a' with blockTables := a'.blockTables.insert seqId (bt ++ [id]) } := by
  have hone : a'.Balanced fun b => (a.occurrences b + leak b) + [id].count b := h.alloc ha
  refine Ledger.congr hone ?_
  intro b
  obtain ⟨rest, -, rfl⟩ := allocBlockLocked_some ha
  have hocc := occurrences_append hbt id b
  show a.occurrences b + leak b + [id].count b =
    total (List.count b) (a.blockTables.insert seqId (bt ++ [id])) + leak b
  omega

theorem extendSequence_keeps (h : Keeps leak a) (seqId : UInt64) :
    Keeps leak (a.extendSequence seqId).2 := by
  unfold extendSequence
  split
  · exact h
  · rename_i bt hbt
    split
    · exact h
    · rename_i id a' ha
      exact h.append hbt ha

theorem freeSequence_keeps (h : Keeps leak a) (seqId : UInt64) :
    Keeps leak (a.freeSequence seqId) := by
  unfold freeSequence
  split
  · exact h
  · rename_i bt hbt
    have hsame := freeBlocks_same bt a
    have hout : a.Balanced fun b =>
        (total (List.count b) (a.blockTables.erase seqId) + leak b) + bt.count b := by
      refine Ledger.congr h ?_
      intro b
      have ho := occurrences_erase hbt b
      omega
    have hfreed := hout.freeBlocks
    show Ledger _ _ _ fun b =>
      total (List.count b) ((bt.foldl freeBlockLocked a).blockTables.erase seqId) + leak b
    rw [hsame.tables]
    exact hfreed

/-- A copy makes the blocks of the table it overwrites a leak. -/
theorem copySequence_keeps (h : Keeps leak a) {srcId : UInt64} (dstId : UInt64) {bt : List Nat}
    (hsrc : a.blockTables.lookup srcId = some bt) :
    Keeps (fun b => leak b + ((a.blockTables.lookup dstId).getD []).count b)
      (a.copySequence srcId dstId).2 := by
  have hcopy : (a.copySequence srcId dstId).2 = { a with
      blockTables := a.blockTables.insert dstId bt
      blockRefCounts := bt.foldl (fun rc bid => Function.update rc bid (rc bid + 1))
        a.blockRefCounts } := by
    simp only [copySequence, hsrc]
  have hused : ∀ b ∈ bt, 0 < a.occurrences b + leak b := by
    intro b hb
    have hpos : 0 < bt.count b := List.count_pos_iff.mpr hb
    have hle : bt.count b ≤ a.occurrences b := le_total (List.count b) hsrc
    omega
  rw [hcopy]
  refine Ledger.congr (Ledger.share h hused) ?_
  intro b
  have ho : a.occurrences b = total (List.count b) a.blockTables := rfl
  show a.occurrences b + leak b + bt.count b =
    total (List.count b) (a.blockTables.insert dstId bt) + _
  cases hdst : a.blockTables.lookup dstId with
  | none =>
    have ht := total_insert_new (List.count b) bt hdst
    simp only [Option.getD_none, List.count_nil]
    omega
  | some old =>
    have ht := total_insert (List.count b) bt hdst
    simp only [Option.getD_some]
    omega

theorem Balanced.growHostBuf (h : a.Balanced uses) (n : Nat) (fresh : Nat → α) :
    (a.growHostBuf n fresh).Balanced uses := by
  unfold Allocator.growHostBuf
  split
  · exact h
  · exact h

theorem evictSequence_keeps (h : Keeps leak a) (seqId : UInt64) (fresh : Nat → α) :
    Keeps leak (a.evictSequence seqId fresh).2 := by
  rcases a.evictSequence_same_or seqId fresh with hsame | ⟨bt, hbt, hev⟩
  · rw [hsame]
    exact h
  · rw [evictSequence_some hbt hev]
    have hout : a.Balanced fun b =>
        (total (List.count b) (a.blockTables.insert seqId []) + leak b) + bt.count b := by
      refine Ledger.congr h ?_
      intro b
      have ht := total_insert (List.count b) [] hbt
      have ho : a.occurrences b = total (List.count b) a.blockTables := rfl
      rw [List.count_nil] at ht
      omega
    exact (hout.growHostBuf bt.length fresh).evictLoop

theorem reloadLoop_keeps {seqId : UInt64} {bt : List Nat}
    (hbt : a.blockTables.lookup seqId = some bt) (h : Keeps leak a) (left i : Nat) :
    Keeps leak (reloadLoop seqId a left i).2 := by
  induction left generalizing a bt i with
  | zero => exact h
  | succ left ih =>
    unfold reloadLoop
    cases ha : a.allocBlockLocked with
    | none => exact h
    | some r =>
      obtain ⟨id, a'⟩ := r
      have hbt' : a'.blockTables.lookup seqId = some bt := by
        obtain ⟨rest, -, rfl⟩ := allocBlockLocked_some ha
        exact hbt
      dsimp only
      rw [hbt', Option.getD_some]
      refine ih (AList.lookup_insert a'.blockTables) ?_ (i + 1)
      exact h.append hbt ha

/-- Creating an empty entry, or writing a table back, changes no count. -/
theorem occurrences_touch (a : Allocator α) (seqId : UInt64) (b : Nat) :
    total (List.count b)
        (a.blockTables.insert seqId ((a.blockTables.lookup seqId).getD [])) =
      a.occurrences b := by
  cases hbt : a.blockTables.lookup seqId with
  | none =>
    have ht := total_insert_new (List.count b) [] hbt
    rw [List.count_nil] at ht
    exact ht
  | some bt =>
    have ht := total_insert (List.count b) bt hbt
    have ho : a.occurrences b = total (List.count b) a.blockTables := rfl
    simp only [Option.getD_some]
    omega

theorem reloadSequence_keeps (h : Keeps leak a) (seqId : UInt64) :
    Keeps leak (a.reloadSequence seqId).2 := by
  unfold reloadSequence
  split
  · exact h
  · rename_i n hn
    dsimp only
    set a₁ : Allocator α := { a with
      blockTables := a.blockTables.insert seqId ((a.blockTables.lookup seqId).getD []) }
      with ha₁
    have hone : Keeps leak a₁ := by
      refine Ledger.congr h ?_
      intro b
      have ho := occurrences_touch a seqId b
      show a.occurrences b + leak b = total (List.count b)
        (a.blockTables.insert seqId ((a.blockTables.lookup seqId).getD [])) + leak b
      omega
    have hloop := reloadLoop_keeps (AList.lookup_insert a.blockTables) hone n 0
    split
    · rename_i a' hr
      rw [hr] at hloop
      exact hloop
    · rename_i a' hr
      rw [hr] at hloop
      exact hloop

/-! ## Runs -/

/-- Each block's reference count is its number of occurrences in the tables, and the free
    stack holds each unused block once and no other. -/
def Conserved (a : Allocator α) : Prop :=
  ∀ b, b < a.maxNumBlocks → a.blockRefCounts b = a.occurrences b ∧
    a.freeList.count b = if a.occurrences b = 0 then 1 else 0

/-- A copy of an existing sequence goes to an id without blocks. -/
def CopiesOntoNothing (a : Allocator α) : Op α → Prop
  | .copy srcId dstId => (a.blockTables.lookup srcId).isSome = true →
      (a.blockTables.lookup dstId).getD [] = []
  | _ => True

theorem Keeps.conserved (h : Keeps (fun _ => 0) a) : Conserved a := by
  intro b hb
  have hr := h.refs b
  have hf := h.free b
  simp only [Nat.add_zero] at hr hf
  refine ⟨hr, hf.trans ?_⟩
  by_cases ho : a.occurrences b = 0
  · rw [if_pos ⟨hb, ho⟩, if_pos ho]
  · rw [if_neg fun hx => ho hx.2, if_neg ho]

/-- The blocks of the table that a copy overwrites. -/
def overwritten (a : Allocator α) : Op α → List Nat
  | .copy srcId dstId =>
    if (a.blockTables.lookup srcId).isSome then (a.blockTables.lookup dstId).getD [] else []
  | _ => []

theorem copiesOntoNothing_iff {op : Op α} : CopiesOntoNothing a op ↔ a.overwritten op = [] := by
  cases op with
  | copy srcId dstId =>
    simp only [CopiesOntoNothing, overwritten]
    split_ifs with hsrc
    · exact ⟨fun h => h hsrc, fun h _ => h⟩
    · exact ⟨fun _ => rfl, fun _ hx => absurd hx hsrc⟩
  | allocate seqId n => exact ⟨fun _ => rfl, fun _ => trivial⟩
  | extend seqId => exact ⟨fun _ => rfl, fun _ => trivial⟩
  | free seqId => exact ⟨fun _ => rfl, fun _ => trivial⟩
  | evict seqId fresh => exact ⟨fun _ => rfl, fun _ => trivial⟩
  | reload seqId => exact ⟨fun _ => rfl, fun _ => trivial⟩
  | write block x => exact ⟨fun _ => rfl, fun _ => trivial⟩

/-- Every operation keeps the ledger: what it overwrites is leaked, and nothing else. -/
theorem step_keeps (h : Keeps leak a) {op : Op α} {a' : Allocator α}
    (hst : step a op = some a') : Keeps (fun b => leak b + (a.overwritten op).count b) a' := by
  cases op with
  | allocate seqId n =>
    cases hst
    exact allocateSequence_keeps h seqId n
  | extend seqId =>
    cases hst
    exact extendSequence_keeps h seqId
  | free seqId =>
    cases hst
    exact freeSequence_keeps h seqId
  | copy srcId dstId =>
    cases hst
    simp only [overwritten]
    cases hsrc : a.blockTables.lookup srcId with
    | none =>
      simp only [copySequence, hsrc]
      exact h
    | some bt => exact copySequence_keeps h dstId hsrc
  | evict seqId fresh =>
    cases hst
    exact evictSequence_keeps h seqId fresh
  | reload seqId =>
    cases hst
    exact reloadSequence_keeps h seqId
  | write block x =>
    cases hst
    exact h

/-- Without an overwriting copy there is no leak. -/
theorem step_keeps_zero (h : Keeps (fun _ => 0) a) {op : Op α} {a' : Allocator α}
    (hok : CopiesOntoNothing a op) (hst : step a op = some a') : Keeps (fun _ => 0) a' := by
  have hkeeps := step_keeps h hst
  rw [copiesOntoNothing_iff.mp hok] at hkeeps
  exact hkeeps

/-- The blocks of an overwritten table keep a count that no table accounts for. -/
theorem not_conserved_of_copy (h : Keeps (fun _ => 0) a) {op : Op α} {a' : Allocator α}
    (hbad : ¬ CopiesOntoNothing a op) (hst : step a op = some a') : ¬ Conserved a' := by
  have hkeeps := step_keeps h hst
  obtain ⟨b, hb⟩ := List.exists_mem_of_ne_nil _ fun hnil => hbad (copiesOntoNothing_iff.mpr hnil)
  have hpos : 0 < (a.overwritten op).count b := List.count_pos_iff.mpr hb
  have hlt : b < a'.maxNumBlocks := by
    by_contra hge
    have hr := hkeeps.range b (by omega)
    dsimp only at hr
    omega
  intro hc
  have hrefs := hkeeps.refs b
  rw [(hc b hlt).1] at hrefs
  dsimp only at hrefs
  omega

/-- The blocks are conserved in every state of a run of the allocator exactly when the run
    copies onto no sequence that has blocks. -/
theorem conserved_iff (blockSize : Int) (maxNumBlocks : Nat) (zero : α) (ops : List (Op α)) :
    AllStates step Conserved (init blockSize maxNumBlocks zero) ops ↔
      AllSteps step CopiesOntoNothing (init blockSize maxNumBlocks zero) ops := by
  refine allStates_iff_allSteps ?_ ?_ ?_ (keeps_init blockSize maxNumBlocks zero) ops
  · exact fun a h => h.conserved
  · exact fun a op a' h hok hst => step_keeps_zero h hok hst
  · exact fun a op a' h hbad hst => not_conserved_of_copy h hbad hst

/-- Two sequences of one block each, the first copied onto the second. -/
def copyOps : List (Op Nat) := [.allocate 1 1, .allocate 2 1, .copy 1 2]

/-- Block 1 is in no table, and neither is it free. -/
theorem copy_leaks : ¬ AllStates step Conserved (init 16 4 (0 : Nat)) copyOps := by
  have hrun : (run step (init 16 4 (0 : Nat)) copyOps).map
      (fun a => (a.maxNumBlocks, a.occurrences 1, a.freeList.count 1)) = some (4, 0, 0) := by
    decide +kernel
  obtain ⟨a, ha, hview⟩ := Option.map_eq_some_iff.mp hrun
  simp only [Prod.mk.injEq] at hview
  obtain ⟨hmax, hocc, hfree⟩ := hview
  intro h
  have hone := (h.last ha 1 (by omega)).2
  rw [hocc, hfree] at hone
  simp at hone

end Allocator

end TruellmEngine.Cuda
