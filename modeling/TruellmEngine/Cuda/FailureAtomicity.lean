/-
  What a refused operation of the allocator leaves behind.

  All operations but `reload_sequence` refuse before they change anything, or roll back. The
  reload loop returns in the middle and leaves the blocks that it took in the table.
  `failsAtomically_iff`: the refused calls of a run change nothing exactly when no reload
  finds some of the blocks it needs, but not all.

  A reload that is refused with no block free can be tried again (`reload_again`): whatever
  happened since, short of what `LeavesEvicted` excludes, it then restores the sequence.
-/
import TruellmEngine.Cuda.Eviction

namespace TruellmEngine.Cuda

open Lib

namespace Allocator

variable {α : Type*} {a a' : Allocator α} {seqId s : UInt64}

/-- The call returns `false`, or -1. -/
def Fails (a : Allocator α) : Op α → Prop
  | .allocate seqId n => (a.allocateSequence seqId n).1 = false
  | .extend seqId => (a.extendSequence seqId).1 = none
  | .copy srcId dstId => (a.copySequence srcId dstId).1 = false
  | .evict seqId fresh => (a.evictSequence seqId fresh).1 = false
  | .reload seqId => (a.reloadSequence seqId).1 = false
  | .free _ => False
  | .write _ _ => False

/-- The block tables, reference counts, free stack and evicted set are as before. -/
structure SameBooks (a a' : Allocator α) : Prop where
  tables : ∀ s, a'.blockTables.lookup s = a.blockTables.lookup s
  refs : a'.blockRefCounts = a.blockRefCounts
  free : a'.freeList = a.freeList
  evicted : a'.evictedSeqs = a.evictedSeqs

theorem SameBooks.refl (a : Allocator α) : SameBooks a a := ⟨fun _ => rfl, rfl, rfl, rfl⟩

def FailsAtomically (a : Allocator α) (op : Op α) : Prop :=
  Fails a op → ∀ a', step a op = some a' → SameBooks a a'

/-- A reload finds all blocks that it needs, or no block. -/
def ReloadsAllOrNone (a : Allocator α) : Op α → Prop
  | .reload seqId => ∀ n, a.evictedSeqs.lookup seqId = some n →
      n ≤ a.freeList.length ∨ a.freeList = []
  | _ => True

/-! ## Evicted sequences have a table -/

def EvictedHaveTables (a : Allocator α) : Prop :=
  ∀ s n, a.evictedSeqs.lookup s = some n → (a.blockTables.lookup s).isSome = true

/-- An operation that touches one table, and does not drop it. -/
theorem EvictedHaveTables.onlyTable (h : EvictedHaveTables a) (hone : OnlyTable seqId a a')
    (hkept : (a.blockTables.lookup seqId).isSome = true →
      (a'.blockTables.lookup seqId).isSome = true) : EvictedHaveTables a' := by
  intro s n hn
  rw [hone.evicted] at hn
  by_cases hs : s = seqId
  · subst hs
    exact hkept (h s n hn)
  · rw [hone.tables s hs]
    exact h s n hn

/-- The reload loop touches one table, keeps it, and takes blocks while there are any. -/
theorem reloadLoop_spec (seqId : UInt64) (left i : Nat) (a : Allocator α) :
    OnlyTable seqId a (reloadLoop seqId a left i).2 ∧
      ((a.blockTables.lookup seqId).isSome = true →
        ((reloadLoop seqId a left i).2.blockTables.lookup seqId).isSome = true) ∧
      (reloadLoop seqId a left i).2.freeList = a.freeList.drop left ∧
      ((reloadLoop seqId a left i).1 = false ↔ a.freeList.length < left) := by
  induction left generalizing a i with
  | zero => exact ⟨OnlyTable.refl seqId a, id, rfl, by simp [reloadLoop]⟩
  | succ left ih =>
    unfold reloadLoop
    cases ha : a.allocBlockLocked with
    | none =>
      have hnil : a.freeList = [] := by
        unfold allocBlockLocked at ha
        split at ha
        · assumption
        · cases ha
      exact ⟨OnlyTable.refl seqId a, id, by simp [hnil], by simp [hnil]⟩
    | some r =>
      obtain ⟨id, a₁⟩ := r
      obtain ⟨rest, hfree, rfl⟩ := allocBlockLocked_some ha
      dsimp only
      set a₁ : Allocator α := { a with
        freeList := rest
        blockRefCounts := Function.update a.blockRefCounts id 1
        blockTables := a.blockTables.insert seqId
          ((a.blockTables.lookup seqId).getD [] ++ [id])
        kvCache := Function.update a.kvCache id (a.evictionHostBuf i) } with ha₁
      have hrest : a₁.freeList = rest := rfl
      have hone : OnlyTable seqId a a₁ :=
        ⟨⟨rfl, rfl, fun s hs => AList.lookup_insert_ne hs⟩, rfl, rfl⟩
      obtain ⟨honly, hkept, hdrop, hfails⟩ := ih (i + 1) a₁
      refine ⟨hone.trans honly, fun _ => hkept (by simp [ha₁]), ?_, ?_⟩
      · rw [hdrop, hfree, List.drop_succ_cons]
      · rw [hfails, hfree, List.length_cons, hrest]
        omega

/-- The state in which the reload loop starts. -/
def touched (a : Allocator α) (seqId : UInt64) : Allocator α :=
  { a with blockTables := a.blockTables.insert seqId (a.tableOf seqId) }

theorem touched_onlyTable (a : Allocator α) (seqId : UInt64) :
    OnlyTable seqId a (a.touched seqId) :=
  ⟨⟨rfl, rfl, fun _ hs => AList.lookup_insert_ne hs⟩, rfl, rfl⟩

/-- With no block free, the reload loop is over at once. -/
theorem reloadLoop_nil {n : Nat} (hn : 0 < n) (hnil : a.freeList = []) :
    reloadLoop seqId (a.touched seqId) n 0 = (false, a.touched seqId) := by
  obtain ⟨k, rfl⟩ : ∃ k, n = k + 1 := Nat.exists_eq_succ_of_ne_zero hn.ne'
  simp only [reloadLoop, allocBlockLocked, touched, hnil]

theorem reloadSequence_some {n : Nat} (hn : a.evictedSeqs.lookup seqId = some n) :
    a.reloadSequence seqId =
      ((reloadLoop seqId (a.touched seqId) n 0).1,
        if (reloadLoop seqId (a.touched seqId) n 0).1 then
          { (reloadLoop seqId (a.touched seqId) n 0).2 with
            evictedSeqs := (reloadLoop seqId (a.touched seqId) n 0).2.evictedSeqs.erase seqId }
        else (reloadLoop seqId (a.touched seqId) n 0).2) := by
  unfold reloadSequence
  rw [hn]
  cases hr : reloadLoop seqId (a.touched seqId) n 0 with
  | mk done a' =>
    have hloop : reloadLoop seqId
        { a with blockTables := a.blockTables.insert seqId ((a.blockTables.lookup seqId).getD []) }
        n 0 = (done, a') := hr
    dsimp only
    rw [hloop]
    cases done with
    | false => rfl
    | true => rfl

/-- A reload of an evicted sequence fails exactly when there are too few blocks. -/
theorem reloadSequence_fails {n : Nat} (hn : a.evictedSeqs.lookup seqId = some n) :
    (a.reloadSequence seqId).1 = false ↔ a.freeList.length < n := by
  rw [reloadSequence_some hn]
  exact (reloadLoop_spec seqId n 0 (a.touched seqId)).2.2.2

theorem evictedHaveTables_reload (h : EvictedHaveTables a) (seqId : UInt64) :
    EvictedHaveTables (a.reloadSequence seqId).2 := by
  cases hev : a.evictedSeqs.lookup seqId with
  | none =>
    unfold reloadSequence
    rw [hev]
    exact h
  | some n =>
    obtain ⟨honly, hkept, -, -⟩ := reloadLoop_spec seqId n 0 (a.touched seqId)
    have hloop : EvictedHaveTables (reloadLoop seqId (a.touched seqId) n 0).2 := by
      apply h.onlyTable ((touched_onlyTable a seqId).trans honly)
      exact fun _ => hkept (by simp [touched])
    rw [reloadSequence_some hev]
    show EvictedHaveTables (if (reloadLoop seqId (a.touched seqId) n 0).1 then _ else _)
    split
    · intro s m hm
      by_cases hs : s = seqId
      · rw [hs, AList.lookup_erase] at hm
        cases hm
      · rw [AList.lookup_erase_ne hs] at hm
        exact hloop s m hm
    · exact hloop

theorem evictedHaveTables_evict (h : EvictedHaveTables a) (seqId : UInt64) (fresh : Nat → α) :
    EvictedHaveTables (a.evictSequence seqId fresh).2 := by
  rcases a.evictSequence_same_or seqId fresh with hsame | ⟨bt, hbt, hev⟩
  · rw [hsame]
    exact h
  · obtain ⟨hevicted, htables, -, -⟩ := evictSequence_first hbt hev fresh
    intro s n hn
    rw [hevicted] at hn
    rw [htables]
    by_cases hs : s = seqId
    · rw [hs, AList.lookup_insert]
      rfl
    · rw [AList.lookup_insert_ne hs] at hn ⊢
      exact h s n hn

theorem evictedHaveTables_free (h : EvictedHaveTables a) (seqId : UInt64) :
    EvictedHaveTables (a.freeSequence seqId) := by
  unfold freeSequence
  split
  · exact h
  · rename_i bt hbt
    have hsame := freeBlocks_same bt a
    intro s n hn
    dsimp only at hn ⊢
    rw [hsame.evicted] at hn
    rw [hsame.tables]
    by_cases hs : s = seqId
    · rw [hs, AList.lookup_erase] at hn
      cases hn
    · rw [AList.lookup_erase_ne hs] at hn ⊢
      exact h s n hn

theorem evictedHaveTables_step (h : EvictedHaveTables a) {op : Op α} (hst : step a op = some a') :
    EvictedHaveTables a' := by
  cases op with
  | allocate seqId n =>
    cases hst
    apply h.onlyTable (allocateSequence_onlyTable a seqId n)
    intro htable
    unfold allocateSequence
    rw [if_pos htable]
    exact htable
  | extend seqId =>
    cases hst
    apply h.onlyTable (extendSequence_onlyTable a seqId)
    intro htable
    unfold extendSequence
    split
    · exact htable
    · split
      · exact htable
      · simp
  | free seqId =>
    cases hst
    exact evictedHaveTables_free h seqId
  | copy srcId dstId =>
    cases hst
    apply h.onlyTable (copySequence_onlyTable a srcId dstId)
    intro htable
    unfold copySequence
    split
    · exact htable
    · simp
  | evict seqId fresh =>
    cases hst
    exact evictedHaveTables_evict h seqId fresh
  | reload seqId =>
    cases hst
    exact evictedHaveTables_reload h seqId
  | write block x =>
    cases hst
    exact h

/-! ## Refused operations -/

/-- With enough free blocks the allocation loop gets them. -/
theorem allocateLoop_isSome {left : Nat} (bt : List Nat) (hfree : left ≤ a.freeList.length) :
    (a.allocateLoop left bt).1.isSome = true := by
  induction left generalizing a bt with
  | zero => rfl
  | succ left ih =>
    unfold allocateLoop
    cases ha : a.allocBlockLocked with
    | none =>
      unfold allocBlockLocked at ha
      split at ha
      · rename_i hnil
        rw [hnil] at hfree
        cases hfree
      · cases ha
    | some r =>
      obtain ⟨id, a₁⟩ := r
      obtain ⟨rest, hlist, rfl⟩ := allocBlockLocked_some ha
      apply ih
      rw [hlist, List.length_cons] at hfree
      exact Nat.le_of_succ_le_succ hfree

/-- The blocks are counted before the first one is taken, so that the roll back of the loop
    is never run. -/
theorem allocateSequence_refused {n : Int} (h : (a.allocateSequence seqId n).1 = false) :
    (a.allocateSequence seqId n).2 = a := by
  unfold allocateSequence at h ⊢
  split
  · rfl
  · rename_i hnew
    rw [if_neg hnew] at h
    dsimp only at h ⊢
    split
    · rfl
    · rename_i hroom
      rw [if_neg hroom] at h
      have hfree : (max ((n + a.blockSize - 1).tdiv a.blockSize) 1).toNat ≤ a.freeList.length := by
        omega
      have hloop := allocateLoop_isSome [] hfree
      split
      · rename_i a' hr
        rw [hr] at hloop
        cases hloop
      · rename_i bt a' hr
        rw [hr] at h
        cases h

theorem extendSequence_refused (h : (a.extendSequence seqId).1 = none) :
    (a.extendSequence seqId).2 = a := by
  unfold extendSequence at h ⊢
  split
  · rfl
  · rename_i bt hbt
    rw [hbt] at h
    dsimp only at h
    split
    · rfl
    · rename_i id a' ha
      rw [ha] at h
      cases h

theorem copySequence_refused {srcId dstId : UInt64} (h : (a.copySequence srcId dstId).1 = false) :
    (a.copySequence srcId dstId).2 = a := by
  unfold copySequence at h ⊢
  split
  · rfl
  · rename_i bt hbt
    rw [hbt] at h
    cases h

theorem evictSequence_refused {fresh : Nat → α} (h : (a.evictSequence seqId fresh).1 = false) :
    (a.evictSequence seqId fresh).2 = a := by
  unfold evictSequence at h ⊢
  split
  · rfl
  · rename_i bt hbt
    rw [hbt] at h
    dsimp only at h
    split at h
    · cases h
    · cases h

/-- A reload that finds no free block writes the table back as it was. -/
theorem reloadSequence_refused (htables : EvictedHaveTables a)
    (h : (a.reloadSequence seqId).1 = false) (hok : ReloadsAllOrNone a (.reload seqId)) :
    SameBooks a (a.reloadSequence seqId).2 := by
  cases hev : a.evictedSeqs.lookup seqId with
  | none =>
    unfold reloadSequence
    rw [hev]
    exact SameBooks.refl a
  | some n =>
    have hfew : a.freeList.length < n := (reloadSequence_fails hev).mp h
    have hnil : a.freeList = [] := (hok n hev).resolve_left (by omega)
    obtain ⟨bt, hbt⟩ := Option.isSome_iff_exists.mp (htables seqId n hev)
    rw [reloadSequence_some hev, reloadLoop_nil (Nat.zero_lt_of_lt hfew) hnil]
    refine ⟨?_, rfl, rfl, rfl⟩
    intro s
    by_cases hs : s = seqId
    · subst hs
      show (a.blockTables.insert s (a.tableOf s)).lookup s = a.blockTables.lookup s
      rw [AList.lookup_insert, tableOf, hbt, Option.getD_some]
    · exact (touched_onlyTable a seqId).tables s hs

/-- A reload that is refused half way has used up the free stack. -/
theorem reloadSequence_not_sameBooks (hbad : ¬ ReloadsAllOrNone a (.reload seqId)) :
    (a.reloadSequence seqId).1 = false ∧ ¬ SameBooks a (a.reloadSequence seqId).2 := by
  simp only [ReloadsAllOrNone, not_forall, not_or] at hbad
  obtain ⟨n, hev, hfew, hsome⟩ := hbad
  have hfails : (a.reloadSequence seqId).1 = false :=
    (reloadSequence_fails hev).mpr (Nat.lt_of_not_le hfew)
  refine ⟨hfails, ?_⟩
  intro hsame
  have hfree := hsame.free
  have hdrop : (reloadLoop seqId (a.touched seqId) n 0).2.freeList = a.freeList.drop n :=
    (reloadLoop_spec seqId n 0 (a.touched seqId)).2.2.1
  rw [reloadSequence_some hev] at hfails hfree
  dsimp only at hfails hfree
  rw [hfails, if_neg Bool.false_ne_true, hdrop,
    List.drop_eq_nil_of_le (Nat.le_of_not_le hfew)] at hfree
  exact hsome hfree.symm

/-- In a state where the evicted sequences have tables. -/
theorem failsAtomically_iff_allOrNone (h : EvictedHaveTables a) (op : Op α) :
    FailsAtomically a op ↔ ReloadsAllOrNone a op := by
  have hrefused : ∀ {op : Op α} {a₁ : Allocator α}, step a op = some a₁ → (Fails a op → a₁ = a) →
      FailsAtomically a op := by
    intro op a₁ hst hsame hfails a₂ ha₂
    rw [hst] at ha₂
    cases ha₂
    rw [hsame hfails]
    exact SameBooks.refl a
  cases op with
  | allocate seqId n => exact iff_of_true (hrefused rfl allocateSequence_refused) trivial
  | extend seqId => exact iff_of_true (hrefused rfl extendSequence_refused) trivial
  | free seqId => exact iff_of_true (hrefused rfl False.elim) trivial
  | copy srcId dstId => exact iff_of_true (hrefused rfl copySequence_refused) trivial
  | evict seqId fresh => exact iff_of_true (hrefused rfl evictSequence_refused) trivial
  | write block x => exact iff_of_true (hrefused rfl False.elim) trivial
  | reload seqId =>
    constructor
    · intro hatomic
      by_contra hbad
      obtain ⟨hfails, hdiffers⟩ := reloadSequence_not_sameBooks hbad
      exact hdiffers (hatomic hfails _ rfl)
    · intro hok hfails a₁ ha₁
      cases ha₁
      exact reloadSequence_refused h hfails hok

/-! ## Trying a reload again -/

/-- The sequence is evicted, and the host buffer holds `held` from slot 0 on. -/
structure Evicted (s : UInt64) (held : List α) (a : Allocator α) : Prop where
  evicted : a.evictedSeqs.lookup s = some held.length
  table : a.blockTables.lookup s = some []
  host : (List.range held.length).map a.evictionHostBuf = held

/-- The step leaves the evicted sequence `s` alone: no other sequence with blocks is evicted,
    `s` is not freed, gets no block and is not copied onto, and a reload of `s` is refused
    with no block free. -/
def LeavesEvicted (s : UInt64) (a : Allocator α) : Op α → Prop
  | .evict seqId _ => seqId ≠ s → a.evictedSeqs.lookup seqId = none → a.tableOf seqId = []
  | .extend seqId => seqId = s → a.freeList = []
  | .copy srcId dstId => dstId = s → a.tableOf srcId = []
  | .reload seqId => seqId = s → Fails a (.reload seqId) ∧ a.freeList = []
  | .free seqId => seqId ≠ s
  | _ => True

variable {held : List α}

theorem Evicted.onlyTable (h : Evicted s held a) (hone : OnlyTable seqId a a')
    (hsame : seqId = s → a'.blockTables.lookup s = a.blockTables.lookup s) :
    Evicted s held a' := by
  refine ⟨by rw [hone.evicted]; exact h.evicted, ?_, by rw [hone.host]; exact h.host⟩
  by_cases hs : seqId = s
  · rw [hsame hs]
    exact h.table
  · rw [hone.tables s (Ne.symm hs)]
    exact h.table

theorem Evicted.evict (h : Evicted s held a) {fresh : Nat → α}
    (hok : LeavesEvicted s a (.evict seqId fresh)) :
    Evicted s held (a.evictSequence seqId fresh).2 := by
  rcases a.evictSequence_same_or seqId fresh with hsame | ⟨bt, hbt, hev⟩
  · rw [hsame]
    exact h
  · have hs : s ≠ seqId := by
      rintro rfl
      rw [h.evicted] at hev
      cases hev
    have hempty : bt = [] := by
      have htable := hok (Ne.symm hs) hev
      rwa [tableOf, hbt, Option.getD_some] at htable
    obtain ⟨hevicted, htables, -, hhost⟩ := evictSequence_first hbt hev fresh
    refine ⟨?_, ?_, ?_⟩
    · rw [hevicted, AList.lookup_insert_ne hs]
      exact h.evicted
    · rw [htables, AList.lookup_insert_ne hs]
      exact h.table
    · rw [hhost hempty]
      exact h.host

theorem Evicted.free (h : Evicted s held a) (hs : seqId ≠ s) :
    Evicted s held (a.freeSequence seqId) := by
  unfold freeSequence
  split
  · exact h
  · rename_i bt hbt
    have hsame := freeBlocks_same bt a
    refine ⟨?_, ?_, ?_⟩
    · show ((bt.foldl freeBlockLocked a).evictedSeqs.erase seqId).lookup s = _
      rw [AList.lookup_erase_ne (Ne.symm hs), hsame.evicted]
      exact h.evicted
    · show ((bt.foldl freeBlockLocked a).blockTables.erase seqId).lookup s = _
      rw [AList.lookup_erase_ne (Ne.symm hs), hsame.tables]
      exact h.table
    · show (List.range held.length).map (bt.foldl freeBlockLocked a).evictionHostBuf = held
      rw [freeBlocks_host]
      exact h.host

theorem Evicted.reload (h : Evicted s held a) (hok : LeavesEvicted s a (.reload seqId)) :
    Evicted s held (a.reloadSequence seqId).2 := by
  cases hev : a.evictedSeqs.lookup seqId with
  | none =>
    unfold reloadSequence
    rw [hev]
    exact h
  | some n =>
    obtain ⟨honly, -, -, -⟩ := reloadLoop_spec seqId n 0 (a.touched seqId)
    have hboth := (touched_onlyTable a seqId).trans honly
    by_cases hs : seqId = s
    · subst hs
      obtain ⟨hfails, hnil⟩ := hok rfl
      have hfew : a.freeList.length < n := (reloadSequence_fails hev).mp hfails
      rw [reloadSequence_some hev, reloadLoop_nil (Nat.zero_lt_of_lt hfew) hnil]
      apply h.onlyTable (touched_onlyTable a seqId)
      intro _
      rw [touched, AList.lookup_insert, tableOf, h.table, Option.getD_some]
    · have hloop : Evicted s held (reloadLoop seqId (a.touched seqId) n 0).2 :=
        h.onlyTable hboth fun heq => absurd heq hs
      rw [reloadSequence_some hev]
      show Evicted s held (if (reloadLoop seqId (a.touched seqId) n 0).1 then _ else _)
      split
      · refine ⟨?_, hloop.table, hloop.host⟩
        show ((reloadLoop seqId (a.touched seqId) n 0).2.evictedSeqs.erase seqId).lookup s = _
        rw [AList.lookup_erase_ne (Ne.symm hs)]
        exact hloop.evicted
      · exact hloop

theorem Evicted.step (h : Evicted s held a) {op : Op α} (hok : LeavesEvicted s a op)
    (hst : step a op = some a') : Evicted s held a' := by
  cases op with
  | allocate seqId n =>
    cases hst
    apply h.onlyTable (allocateSequence_onlyTable a seqId n)
    rintro rfl
    unfold allocateSequence
    rw [if_pos (by rw [h.table]; rfl)]
  | extend seqId =>
    cases hst
    apply h.onlyTable (extendSequence_onlyTable a seqId)
    intro hs
    have hnil := hok hs
    subst hs
    simp only [extendSequence, h.table, allocBlockLocked, hnil]
  | free seqId =>
    cases hst
    exact h.free hok
  | copy srcId dstId =>
    cases hst
    apply h.onlyTable (copySequence_onlyTable a srcId dstId)
    intro hs
    have hempty := hok hs
    subst hs
    unfold copySequence
    split
    · rfl
    · rename_i bt hbt
      rw [tableOf, hbt, Option.getD_some] at hempty
      show (a.blockTables.insert dstId bt).lookup dstId = _
      rw [AList.lookup_insert, hempty, h.table]
  | evict seqId fresh =>
    cases hst
    exact h.evict hok
  | reload seqId =>
    cases hst
    exact h.reload hok
  | write block x =>
    cases hst
    exact ⟨h.evicted, h.table, h.host⟩

theorem evicted_of_evict {bt : List Nat} (hbt : a.blockTables.lookup s = some bt)
    (hev : a.evictedSeqs.lookup s = none) (fresh : Nat → α) :
    Evicted s (a.contents s) (a.evictSequence s fresh).2 := by
  obtain ⟨hevicted, htables, hcopied, -⟩ := evictSequence_first hbt hev fresh
  have hcontents : a.contents s = bt.map a.kvCache := by
    rw [contents, tableOf, hbt, Option.getD_some]
  refine ⟨?_, ?_, ?_⟩
  · rw [hevicted, AList.lookup_insert, hcontents, List.length_map]
  · rw [htables, AList.lookup_insert]
  · rw [hcontents, List.length_map]
    exact hcopied

/-- A reload with enough free blocks brings the sequence back as it was evicted. -/
theorem Evicted.reloaded (h : Evicted s held a) (hnodup : a.freeList.Nodup)
    (hfree : held.length ≤ a.freeList.length) :
    (a.reloadSequence s).1 = true ∧ (a.reloadSequence s).2.contents s = held := by
  have hlook : (a.touched s).blockTables.lookup s = some [] := by
    rw [touched, AList.lookup_insert, tableOf, h.table, Option.getD_some]
  obtain ⟨a', hloop, -, htable, hfill, -⟩ :=
    reloadLoop_fills (a := a.touched s) hlook hfree hnodup 0
  rw [reloadSequence_some h.evicted, hloop]
  refine ⟨rfl, ?_⟩
  show (a'.tableOf s).map a'.kvCache = held
  rw [htable, List.nil_append, hfill, ← List.range_eq_range']
  exact h.host

/-! ## Runs -/

/-- What every state of a run has: a ledger, up to leaks, and tables of the evicted. -/
def InOrder (a : Allocator α) : Prop := (∃ leak, Keeps leak a) ∧ EvictedHaveTables a

theorem inOrder_init (blockSize : Int) (maxNumBlocks : Nat) (zero : α) :
    InOrder (init blockSize maxNumBlocks zero) := by
  refine ⟨⟨_, keeps_init blockSize maxNumBlocks zero⟩, ?_⟩
  intro s n hn
  simp [init] at hn

theorem InOrder.step (h : InOrder a) {op : Op α} (hst : step a op = some a') : InOrder a' := by
  obtain ⟨⟨leak, hledger⟩, htables⟩ := h
  exact ⟨⟨_, step_keeps hledger hst⟩, evictedHaveTables_step htables hst⟩

theorem InOrder.run (h : InOrder a) {ops : List (Op α)} (hr : run Allocator.step a ops = some a') :
    InOrder a' := by
  have hall : AllStates Allocator.step InOrder a ops :=
    allStates_of_kept (fun a op a' ha hst => ha.step hst) h ops
  exact hall.last hr

/-- The refused calls of a run leave tables, counts, free stack and evicted set as they were
    exactly when every reload of the run finds all blocks that it needs, or none. And a
    sequence that was evicted, and left alone since but for such refused reloads, comes back
    with its contents as soon as there are enough free blocks. -/
theorem failsAtomically_iff (blockSize : Int) (maxNumBlocks : Nat) (zero : α)
    (ops : List (Op α)) :
    (AllSteps step FailsAtomically (init blockSize maxNumBlocks zero) ops ↔
      AllSteps step ReloadsAllOrNone (init blockSize maxNumBlocks zero) ops) ∧
    ∀ a s fresh, run step (init blockSize maxNumBlocks zero) ops = some a →
      (a.blockTables.lookup s).isSome = true → a.evictedSeqs.lookup s = none →
      ∀ more a', AllSteps step (LeavesEvicted s) (a.evictSequence s fresh).2 more →
        run step (a.evictSequence s fresh).2 more = some a' →
        (a.contents s).length ≤ a'.freeList.length →
          (a'.reloadSequence s).1 = true ∧
            (a'.reloadSequence s).2.contents s = a.contents s := by
  have hstart := inOrder_init blockSize maxNumBlocks zero
  refine ⟨⟨?_, ?_⟩, ?_⟩
  · apply allSteps_of_invariant (I := InOrder) (fun a op a' ha _ hst => ha.step hst) _ hstart
    exact fun a op a' ha hok _ => (failsAtomically_iff_allOrNone ha.2 op).mp hok
  · apply allSteps_of_invariant (I := InOrder) (fun a op a' ha _ hst => ha.step hst) _ hstart
    exact fun a op a' ha hok _ => (failsAtomically_iff_allOrNone ha.2 op).mpr hok
  · intro a s fresh hr hbt hev more a' hmore hr' hfree
    obtain ⟨bt, hbt⟩ := Option.isSome_iff_exists.mp hbt
    have hin := hstart.run hr
    have hevict : step a (.evict s fresh) = some (a.evictSequence s fresh).2 := rfl
    obtain ⟨leak, hledger⟩ := ((hin.step hevict).run hr').1
    have hheld : Evicted s (a.contents s) a' := by
      have hall := allStates_of_invariant
        (fun a op a' ha hok hst => Evicted.step ha hok hst) (evicted_of_evict hbt hev fresh) hmore
      exact hall.last hr'
    exact hheld.reloaded hledger.nodup hfree

/-- A sequence of two blocks with contents 7 and 8. -/
def twoBlocks : List (Op Nat) := [.allocate 1 32, .write 0 7, .write 1 8]

/-- A second sequence takes both blocks of the pool, the reload is refused, and the second
    sequence ends. -/
def refusedReload : List (Op Nat) := [.allocate 2 32, .reload 1, .free 2]

theorem failsAtomically_retry : ∃ a a' : Allocator Nat,
    run step (init 16 2 0) twoBlocks = some a ∧
      run step (a.evictSequence 1 fun _ => 0).2 refusedReload = some a' ∧
      (a'.reloadSequence 1).1 = true ∧ (a'.reloadSequence 1).2.contents 1 = [7, 8] := by
  refine ⟨_, _, rfl, rfl, ?_⟩
  refine (failsAtomically_iff 16 2 0 twoBlocks).2 _ 1 (fun _ => 0) rfl rfl rfl refusedReload _
    ?_ rfl (by decide)
  intro a₁ h₁
  cases h₁
  refine ⟨trivial, ?_⟩
  intro a₂ h₂
  cases h₂
  refine ⟨fun _ => ⟨rfl, rfl⟩, ?_⟩
  intro a₃ h₃
  cases h₃
  exact ⟨show (2 : UInt64) ≠ 1 by decide, trivial⟩

/-- One block of two is free when the sequence is reloaded. -/
def halfReload : List (Op Nat) := [.allocate 1 32, .evict 1 fun _ => 0, .allocate 2 1]

/-- The reload is refused, and has taken the free block. -/
theorem reload_keeps_block :
    ¬ AllSteps step FailsAtomically (init 16 2 (0 : Nat)) (halfReload ++ [.reload 1]) := by
  have hrun : (run step (init 16 2 (0 : Nat)) halfReload).map
      (fun a => ((a.reloadSequence 1).1, a.freeList, (a.reloadSequence 1).2.freeList)) =
        some (false, [0], []) := by
    decide +kernel
  obtain ⟨a, ha, hview⟩ := Option.map_eq_some_iff.mp hrun
  simp only [Prod.mk.injEq] at hview
  obtain ⟨hfails, hbefore, hafter⟩ := hview
  intro h
  have hatomic := h.last ha rfl
  have hfree := (hatomic hfails _ rfl).free
  rw [hbefore, hafter] at hfree
  cases hfree

end Allocator

end TruellmEngine.Cuda
