/-
  The pool without sharing: as long as no table is copied, every block is free or in one
  place of one block table (`Exclusive`). What allocating, extending and freeing a sequence
  does is then said in terms of tables and the number of free blocks.
-/
import TruellmEngine.Cuda.Conservation
import Mathlib.Data.List.Perm.Basic

namespace TruellmEngine.Cuda

open Lib

namespace Allocator

variable {α : Type*} {a : Allocator α} {seqId : UInt64}

/-- The ledger of the pool is balanced and no block is used twice. -/
structure Exclusive (a : Allocator α) : Prop where
  keeps : Keeps (fun _ => 0) a
  unshared : ∀ b, a.blockRefCounts b ≤ 1

theorem exclusive_init (blockSize : Int) (maxNumBlocks : Nat) (zero : α) :
    Exclusive (init blockSize maxNumBlocks zero) :=
  ⟨keeps_init blockSize maxNumBlocks zero, fun _ => Int.zero_le_ofNat 1⟩

theorem Exclusive.occurrences_le (h : Exclusive a) (b : Nat) : a.occurrences b ≤ 1 := by
  have hrefs := h.keeps.refs b
  have hone := h.unshared b
  dsimp only at hrefs
  omega

theorem Exclusive.table_nodup (h : Exclusive a) {bt : List Nat}
    (hbt : a.blockTables.lookup seqId = some bt) : bt.Nodup := by
  rw [List.nodup_iff_count_le_one]
  intro b
  exact (le_total (List.count b) hbt).trans (h.occurrences_le b)

/-- No block is in the tables of two sequences. -/
theorem Exclusive.tables_disjoint (h : Exclusive a) {s : UInt64} (hs : s ≠ seqId)
    {bt bt' : List Nat} (hbt : a.blockTables.lookup seqId = some bt)
    (hbt' : a.blockTables.lookup s = some bt') : ∀ b ∈ bt, b ∉ bt' := by
  intro b hb hb'
  have hsplit := occurrences_erase hbt b
  have hrest : bt'.count b ≤ total (List.count b) (a.blockTables.erase seqId) :=
    le_total (List.count b) (by rw [AList.lookup_erase_ne hs, hbt'])
  have hone := h.occurrences_le b
  have hpos : 0 < bt.count b := List.count_pos_iff.mpr hb
  have hpos' : 0 < bt'.count b := List.count_pos_iff.mpr hb'
  omega

/-- Every block is in the free stack or in a table. -/
theorem Exclusive.room (h : Exclusive a) :
    a.freeList.length + total List.length a.blockTables = a.maxNumBlocks := by
  have hocc : ∀ b, (a.blockTables.entries.flatMap Sigma.snd).count b = a.occurrences b := by
    intro b
    rw [List.count_flatMap]
    rfl
  have hperm : (a.freeList ++ a.blockTables.entries.flatMap Sigma.snd).Perm
      (List.range a.maxNumBlocks) := by
    rw [List.perm_iff_count]
    intro b
    rw [List.count_append, hocc]
    have hfree := h.keeps.free b
    have hrange := h.keeps.range b
    have hone := h.occurrences_le b
    simp only [Nat.add_zero] at hfree hrange
    by_cases hb : b < a.maxNumBlocks
    · rw [List.count_eq_one_of_mem List.nodup_range (List.mem_range.mpr hb), hfree]
      split
      · omega
      · omega
    · rw [List.count_eq_zero_of_not_mem fun hm => hb (List.mem_range.mp hm), hfree,
        if_neg fun hx => hb hx.1, hrange (by omega)]
  have hlen := hperm.length_eq
  rw [List.length_append, List.length_flatMap, List.length_range] at hlen
  exact hlen

/-! ## The operations -/

theorem freeBlockLocked_unshared (h : ∀ b, a.blockRefCounts b ≤ 1) (id : Nat) :
    ∀ b, (a.freeBlockLocked id).blockRefCounts b ≤ 1 := by
  intro b
  have hb := h b
  have hid := h id
  unfold freeBlockLocked
  split
  · by_cases hbid : b = id
    · simp [hbid]
    · simp only [Function.update_of_ne hbid]
      exact hb
  · omega

theorem freeBlocks_unshared (bt : List Nat) (h : ∀ b, a.blockRefCounts b ≤ 1) :
    ∀ b, (bt.foldl freeBlockLocked a).blockRefCounts b ≤ 1 := by
  induction bt generalizing a with
  | nil => exact h
  | cons id bt ih => exact ih (freeBlockLocked_unshared h id)

theorem allocBlockLocked_unshared (h : ∀ b, a.blockRefCounts b ≤ 1) {id : Nat}
    {a' : Allocator α} (ha : a.allocBlockLocked = some (id, a')) :
    ∀ b, a'.blockRefCounts b ≤ 1 := by
  obtain ⟨rest, -, rfl⟩ := allocBlockLocked_some ha
  intro b
  by_cases hb : b = id
  · simp [hb]
  · simp only [Function.update_of_ne hb]
    exact h b

/-- With enough free blocks the allocation loop succeeds. -/
theorem allocateLoop_some {left : Nat} (bt : List Nat) (hfree : left ≤ a.freeList.length)
    (h : ∀ b, a.blockRefCounts b ≤ 1) :
    ∃ ids a', a.allocateLoop left bt = (some ids, a') ∧ ids.length = bt.length + left ∧
      ∀ b, a'.blockRefCounts b ≤ 1 := by
  induction left generalizing a bt with
  | zero => exact ⟨bt, a, rfl, rfl, h⟩
  | succ left ih =>
    cases hlist : a.freeList with
    | nil =>
      rw [hlist] at hfree
      cases hfree
    | cons id rest =>
      rw [hlist, List.length_cons] at hfree
      have halloc : a.allocBlockLocked = some (id, { a with
          freeList := rest, blockRefCounts := Function.update a.blockRefCounts id 1 }) := by
        simp only [allocBlockLocked, hlist]
      obtain ⟨ids, a', hr, hlen, hone⟩ := ih (a := { a with
          freeList := rest, blockRefCounts := Function.update a.blockRefCounts id 1 })
        (bt ++ [id]) (by dsimp only; omega) (allocBlockLocked_unshared h halloc)
      refine ⟨ids, a', ?_, ?_, hone⟩
      · unfold allocateLoop
        rw [halloc]
        exact hr
      · rw [hlen, List.length_append, List.length_singleton]
        omega

/-- A new sequence gets its blocks exactly when they are free. -/
theorem allocateSequence_spec (h : Exclusive a) (hnew : a.blockTables.lookup seqId = none)
    (n : Int) :
    (a.promptBlocks n ≤ a.freeList.length ∧ ∃ a' bt, a.allocateSequence seqId n = (true, a') ∧
      Exclusive a' ∧ OtherTables seqId a a' ∧ a'.blockTables.lookup seqId = some bt ∧
      bt.length = a.promptBlocks n) ∨
    (a.freeList.length < a.promptBlocks n ∧ a.allocateSequence seqId n = (false, a)) := by
  have hkeeps := allocateSequence_keeps h.keeps seqId n
  have hothers := (allocateSequence_onlyTable a seqId n).toOtherTables
  have hcount : (a.promptBlocks n : Int) = max ((n + a.blockSize - 1).tdiv a.blockSize) 1 := by
    unfold promptBlocks
    omega
  by_cases hfree : a.promptBlocks n ≤ a.freeList.length
  · left
    refine ⟨hfree, ?_⟩
    obtain ⟨ids, a', hr, hlen, hone⟩ := allocateLoop_some [] hfree h.unshared
    have halloc : a.allocateSequence seqId n =
        (true, { a' with blockTables := a'.blockTables.insert seqId ids }) := by
      unfold promptBlocks at hr hfree
      unfold allocateSequence
      rw [hnew, if_neg (by simp)]
      dsimp only
      rw [if_neg (by omega), hr]
    rw [halloc] at hkeeps hothers
    exact ⟨_, ids, halloc, ⟨hkeeps, hone⟩, hothers, AList.lookup_insert _, by simpa using hlen⟩
  · right
    refine ⟨by omega, ?_⟩
    unfold allocateSequence
    rw [hnew, if_neg (by simp)]
    dsimp only
    rw [if_pos (by omega)]

/-- A sequence grows by one block exactly when one is free. -/
theorem extendSequence_spec (h : Exclusive a) {bt : List Nat}
    (hbt : a.blockTables.lookup seqId = some bt) :
    (a.freeList ≠ [] ∧ ∃ a' id, a.extendSequence seqId = (some id, a') ∧ Exclusive a' ∧
      OtherTables seqId a a' ∧ a'.blockTables.lookup seqId = some (bt ++ [id])) ∨
    (a.freeList = [] ∧ a.extendSequence seqId = (none, a)) := by
  have hkeeps := extendSequence_keeps h.keeps seqId
  have hothers := (extendSequence_onlyTable a seqId).toOtherTables
  cases hlist : a.freeList with
  | nil =>
    right
    exact ⟨rfl, by simp only [extendSequence, hbt, allocBlockLocked, hlist]⟩
  | cons id rest =>
    left
    have halloc : a.allocBlockLocked = some (id, { a with
        freeList := rest, blockRefCounts := Function.update a.blockRefCounts id 1 }) := by
      simp only [allocBlockLocked, hlist]
    have hext : a.extendSequence seqId = (some id, { a with
        freeList := rest
        blockRefCounts := Function.update a.blockRefCounts id 1
        blockTables := a.blockTables.insert seqId (bt ++ [id]) }) := by
      simp only [extendSequence, hbt, halloc]
    have hone := allocBlockLocked_unshared h.unshared halloc
    rw [hext] at hkeeps hothers
    exact ⟨by simp, _, id, hext, ⟨hkeeps, hone⟩, hothers, AList.lookup_insert _⟩

theorem freeSequence_spec (h : Exclusive a) (seqId : UInt64) :
    Exclusive (a.freeSequence seqId) ∧ OtherTables seqId a (a.freeSequence seqId) ∧
      (a.freeSequence seqId).blockTables.lookup seqId = none := by
  refine ⟨⟨freeSequence_keeps h.keeps seqId, ?_⟩, freeSequence_otherTables a seqId, ?_⟩
  · unfold freeSequence
    split
    · exact h.unshared
    · rename_i bt hbt
      exact freeBlocks_unshared bt h.unshared
  · unfold freeSequence
    split
    · rename_i hnone
      exact hnone
    · exact AList.lookup_erase _ _

end Allocator

end TruellmEngine.Cuda
