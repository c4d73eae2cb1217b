/-
  The paged KV allocator (`cuda_allocator.cpp`): block tables, reference counts, the free
  stack, and the pinned host buffer of the eviction.

  Every public method holds the mutex, so each is one step. The device pool and the host
  buffer are maps from block slots to contents, and a `cudaMemcpyAsync` is a copy that is
  completed at once. Reallocating the host buffer leaves it with unknown contents, an
  argument of the step. The addresses behind the slots are the subject of `PoolLayout`.
-/
import TruellmEngine.Lib.MapTotal
import TruellmEngine.Lib.Run
import Mathlib.Logic.Function.Basic

namespace TruellmEngine.Cuda

open Lib

/-- The state of `CudaAllocator`. `freeList` lists the free stack from its top. -/
structure Allocator (α : Type*) where
  blockSize : Int
  maxNumBlocks : Nat
  blockTables : AList fun _ : UInt64 => List Nat
  blockRefCounts : Nat → Int
  freeList : List Nat
  evictedSeqs : AList fun _ : UInt64 => Nat
  kvCache : Nat → α
  evictionHostBuf : Nat → α
  evictionBufBlocks : Nat

namespace Allocator

variable {α : Type*}

/-- The constructor: block 0 is on top of the free stack, the pool is cleared to `zero`. -/
def init (blockSize : Int) (maxNumBlocks : Nat) (zero : α) : Allocator α where
  blockSize := blockSize
  maxNumBlocks := maxNumBlocks
  blockTables := ∅
  blockRefCounts := fun _ => 0
  freeList := List.range maxNumBlocks
  evictedSeqs := ∅
  kvCache := fun _ => zero
  evictionHostBuf := fun _ => zero
  evictionBufBlocks := 0

/-! ## Blocks -/

def allocBlockLocked (a : Allocator α) : Option (Nat × Allocator α) :=
  match a.freeList with
  | [] => none
  | id :: rest =>
    some (id, { a with
      freeList := rest, blockRefCounts := Function.update a.blockRefCounts id 1 })

def freeBlockLocked (a : Allocator α) (id : Nat) : Allocator α :=
  if a.blockRefCounts id - 1 ≤ 0 then
    { a with
      blockRefCounts := Function.update a.blockRefCounts id 0, freeList := id :: a.freeList }
  else
    { a with
      blockRefCounts := Function.update a.blockRefCounts id (a.blockRefCounts id - 1) }

/-! ## Sequence lifecycle -/

/-- The block table of a sequence, empty when it has none. -/
def tableOf (a : Allocator α) (seqId : UInt64) : List Nat :=
  (a.blockTables.lookup seqId).getD []

/-- The allocation loop of `allocate_sequence`, with its roll back. -/
def allocateLoop (a : Allocator α) : (left : Nat) → (bt : List Nat) →
    Option (List Nat) × Allocator α
  | 0, bt => (some bt, a)
  | left + 1, bt =>
    match a.allocBlockLocked with
    | none => (none, bt.foldl freeBlockLocked a)
    | some (id, a) => allocateLoop a left (bt ++ [id])

/-- The number of blocks `allocate_sequence` takes for a prompt of `n` tokens. -/
def promptBlocks (a : Allocator α) (n : Int) : Nat :=
  (max ((n + a.blockSize - 1).tdiv a.blockSize) 1).toNat

def allocateSequence (a : Allocator α) (seqId : UInt64) (numPromptTokens : Int) :
    Bool × Allocator α :=
  if (a.blockTables.lookup seqId).isSome then (false, a)
  else
    let numBlocks := max ((numPromptTokens + a.blockSize - 1).tdiv a.blockSize) 1
    if (a.freeList.length : Int) < numBlocks then (false, a)
    else
      match a.allocateLoop numBlocks.toNat [] with
      | (none, a) => (false, a)
      | (some bt, a) => (true, { a with blockTables := a.blockTables.insert seqId bt })

def extendSequence (a : Allocator α) (seqId : UInt64) : Option Nat × Allocator α :=
  match a.blockTables.lookup seqId with
  | none => (none, a)
  | some bt =>
    match a.allocBlockLocked with
    | none => (none, a)
    | some (id, a) =>
      (some id, { a with blockTables := a.blockTables.insert seqId (bt ++ [id]) })

def freeSequence (a : Allocator α) (seqId : UInt64) : Allocator α :=
  match a.blockTables.lookup seqId with
  | none => a
  | some bt =>
    let a := bt.foldl freeBlockLocked a
    { a with
      blockTables := a.blockTables.erase seqId
      evictedSeqs := a.evictedSeqs.erase seqId }

def copySequence (a : Allocator α) (srcId dstId : UInt64) : Bool × Allocator α :=
  match a.blockTables.lookup srcId with
  | none => (false, a)
  | some bt =>
    (true, { a with
      blockTables := a.blockTables.insert dstId bt
      blockRefCounts := bt.foldl (fun rc bid => Function.update rc bid (rc bid + 1))
        a.blockRefCounts })

/-! ## Eviction -/

/-- The copy loop of `evict_sequence`, from host slot `i` on. -/
def evictLoop : (a : Allocator α) → (bt : List Nat) → (i : Nat) → Allocator α
  | a, [], _ => a
  | a, phys :: bt, i =>
    evictLoop
      (freeBlockLocked
        { a with evictionHostBuf := Function.update a.evictionHostBuf i (a.kvCache phys) } phys)
      bt (i + 1)

/-- `evict_sequence`. A buffer that is too small is freed and allocated again, with
    contents `fresh`. -/
def evictSequence (a : Allocator α) (seqId : UInt64) (fresh : Nat → α) :
    Bool × Allocator α :=
  match a.blockTables.lookup seqId with
  | none => (false, a)
  | some bt =>
    if (a.evictedSeqs.lookup seqId).isSome then (true, a)
    else
      let n := bt.length
      let a := if a.evictionBufBlocks < n then
          { a with evictionHostBuf := fresh, evictionBufBlocks := n * 2 }
        else a
      let a := evictLoop a bt 0
      (true, { a with
        evictedSeqs := a.evictedSeqs.insert seqId n
        blockTables := a.blockTables.insert seqId [] })

/-- The copy loop of `reload_sequence`, from host slot `i` on. Blocks that were appended
    stay in the table when the pool is exhausted. -/
def reloadLoop (seqId : UInt64) : (a : Allocator α) → (left i : Nat) → Bool × Allocator α
  | a, 0, _ => (true, a)
  | a, left + 1, i =>
    match a.allocBlockLocked with
    | none => (false, a)
    | some (id, a) =>
      let bt := (a.blockTables.lookup seqId).getD []
      reloadLoop seqId
        { a with
          blockTables := a.blockTables.insert seqId (bt ++ [id])
          kvCache := Function.update a.kvCache id (a.evictionHostBuf i) }
        left (i + 1)

def reloadSequence (a : Allocator α) (seqId : UInt64) : Bool × Allocator α :=
  match a.evictedSeqs.lookup seqId with
  | none => (false, a)
  | some n =>
    -- `block_tables_[seq_id]` creates the entry when it is missing
    let bt := (a.blockTables.lookup seqId).getD []
    let a := { a with blockTables := a.blockTables.insert seqId bt }
    match reloadLoop seqId a n 0 with
    | (false, a) => (false, a)
    | (true, a) => (true, { a with evictedSeqs := a.evictedSeqs.erase seqId })

/-! ## The machine -/

/-- A call of a public method, or a write of a kernel into a pool block. -/
inductive Op (α : Type*) where
  | allocate (seqId : UInt64) (numPromptTokens : Int)
  | extend (seqId : UInt64)
  | free (seqId : UInt64)
  | copy (srcId dstId : UInt64)
  | evict (seqId : UInt64) (fresh : Nat → α)
  | reload (seqId : UInt64)
  | write (block : Nat) (x : α)

def step (a : Allocator α) : Op α → Option (Allocator α)
  | .allocate seqId n => some (a.allocateSequence seqId n).2
  | .extend seqId => some (a.extendSequence seqId).2
  | .free seqId => some (a.freeSequence seqId)
  | .copy srcId dstId => some (a.copySequence srcId dstId).2
  | .evict seqId fresh => some (a.evictSequence seqId fresh).2
  | .reload seqId => some (a.reloadSequence seqId).2
  | .write block x => some { a with kvCache := Function.update a.kvCache block x }

end Allocator

end TruellmEngine.Cuda
