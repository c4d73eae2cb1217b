/-
  Eviction to the host buffer and back.

  The allocator is traced with what each sequence held when it was last evicted. A reload
  restores that (`ReloadRestores`) along every run in which nothing disturbs an evicted
  sequence (`Undisturbed`, `reload_restores`). The host buffer has room for one sequence
  only, written from slot 0 on: a second eviction overwrites it (`second_evict_overwrites`).
-/
import TruellmEngine.Cuda.Conservation
import Mathlib.Data.List.Range

namespace TruellmEngine.Cuda

open Lib

namespace Allocator

variable {α : Type*} {a : Allocator α}

/-- What the logical blocks of a sequence hold, in order. -/
def contents (a : Allocator α) (seqId : UInt64) : List α := (a.tableOf seqId).map a.kvCache

/-! ## The copy loops -/

/-- The copy loop of an eviction writes the contents of the blocks to the host slots from
    `i` on, in order, and to no slot before. -/
theorem evictLoop_host (bt : List Nat) (i : Nat) (a : Allocator α) :
    (List.range' i bt.length).map (evictLoop a bt i).evictionHostBuf = bt.map a.kvCache ∧
      ∀ j, j < i → (evictLoop a bt i).evictionHostBuf j = a.evictionHostBuf j := by
  induction bt generalizing i a with
  | nil => exact ⟨rfl, fun _ _ => rfl⟩
  | cons phys bt ih =>
    set a₁ : Allocator α := freeBlockLocked
      { a with evictionHostBuf := Function.update a.evictionHostBuf i (a.kvCache phys) } phys
      with ha₁
    have hhost : a₁.evictionHostBuf = Function.update a.evictionHostBuf i (a.kvCache phys) :=
      freeBlockLocked_host _ phys
    have hpool : a₁.kvCache = a.kvCache := (freeBlockLocked_same _ phys).pool
    obtain ⟨hcopied, hbefore⟩ := ih (i + 1) a₁
    have hloop : evictLoop a (phys :: bt) i = evictLoop a₁ bt (i + 1) := rfl
    rw [hloop]
    constructor
    · rw [List.length_cons, List.range'_succ, List.map_cons, List.map_cons, hcopied, hpool,
        hbefore i (by omega), hhost, Function.update_self]
    · intro j hj
      rw [hbefore j (by omega), hhost, Function.update_of_ne (by omega)]

/-- What a first eviction does: the contents of the blocks are in the host slots from 0 on,
    and the table is empty. Only an eviction without blocks leaves the host buffer alone. -/
theorem evictSequence_first {seqId : UInt64} {bt : List Nat}
    (hbt : a.blockTables.lookup seqId = some bt) (hev : a.evictedSeqs.lookup seqId = none)
    (fresh : Nat → α) :
    (a.evictSequence seqId fresh).2.evictedSeqs = a.evictedSeqs.insert seqId bt.length ∧
      (a.evictSequence seqId fresh).2.blockTables = a.blockTables.insert seqId [] ∧
      (List.range bt.length).map (a.evictSequence seqId fresh).2.evictionHostBuf =
        bt.map a.kvCache ∧
      (bt = [] → (a.evictSequence seqId fresh).2.evictionHostBuf = a.evictionHostBuf) := by
  have hgrow := growHostBuf_same a bt.length fresh
  have hcopied := (evictLoop_host bt 0 (a.growHostBuf bt.length fresh)).1
  rw [evictSequence_some hbt hev, List.range_eq_range', ← hgrow.pool]
  refine ⟨rfl, rfl, hcopied, ?_⟩
  rintro rfl
  have hroom : ¬ a.evictionBufBlocks < ([] : List Nat).length := Nat.not_lt_zero _
  show (a.growHostBuf ([] : List Nat).length fresh).evictionHostBuf = a.evictionHostBuf
  rw [growHostBuf, if_neg hroom]

/-- The copy loop of a reload with enough free blocks: it appends the blocks on top of the
    free stack to the table, and fills them from the host slots from `i` on. -/
theorem reloadLoop_fills {seqId : UInt64} {bt : List Nat} {left : Nat}
    (hbt : a.blockTables.lookup seqId = some bt) (hfree : left ≤ a.freeList.length)
    (hnodup : a.freeList.Nodup) (i : Nat) :
    ∃ a', reloadLoop seqId a left i = (true, a') ∧ OnlyTable seqId a a' ∧
      a'.tableOf seqId = bt ++ a.freeList.take left ∧
      (a.freeList.take left).map a'.kvCache =
        (List.range' i left).map a.evictionHostBuf ∧
      ∀ b, b ∉ a.freeList → a'.kvCache b = a.kvCache b := by
  induction left generalizing a bt i with
  | zero => exact ⟨a, rfl, OnlyTable.refl seqId a, by simp [tableOf, hbt], rfl, fun _ _ => rfl⟩
  | succ left ih =>
    cases hlist : a.freeList with
    | nil =>
      rw [hlist] at hfree
      cases hfree
    | cons id rest =>
      rw [hlist] at hfree hnodup
      obtain ⟨hid, hrest⟩ := List.nodup_cons.mp hnodup
      set a₁ : Allocator α := { a with
        freeList := rest
        blockRefCounts := Function.update a.blockRefCounts id 1
        blockTables := a.blockTables.insert seqId (bt ++ [id])
        kvCache := Function.update a.kvCache id (a.evictionHostBuf i) } with ha₁
      have hloop : reloadLoop seqId a (left + 1) i = reloadLoop seqId a₁ left (i + 1) := by
        simp only [reloadLoop, allocBlockLocked, hlist, hbt, Option.getD_some, ha₁]
      have hone : OnlyTable seqId a a₁ :=
        ⟨⟨rfl, rfl, fun s hs => AList.lookup_insert_ne hs⟩, rfl, rfl⟩
      have hpool : a₁.kvCache = Function.update a.kvCache id (a.evictionHostBuf i) := rfl
      obtain ⟨a', hr, honly, htable, hfill, hother⟩ := ih (a := a₁)
        (AList.lookup_insert a.blockTables) (by simpa using hfree) hrest (i + 1)
      refine ⟨a', hloop.trans hr, hone.trans honly, ?_, ?_, ?_⟩
      · rw [htable, List.take_succ_cons, List.append_assoc]
        rfl
      · rw [List.take_succ_cons, List.map_cons, List.range'_succ, List.map_cons, hfill,
          hother id hid, hpool, Function.update_self, hone.host]
      · intro b hb
        have hne : b ≠ id := fun h => hb (h ▸ List.mem_cons_self)
        have hnot : b ∉ rest := fun h => hb (List.mem_cons_of_mem id h)
        rw [hother b hnot, hpool, Function.update_of_ne hne]

/-! ## The traced allocator -/

/-- The allocator, and what each sequence held when it was last evicted. -/
structure Traced (α : Type*) where
  alloc : Allocator α
  saved : UInt64 → List α

namespace Traced

def start (blockSize : Int) (maxNumBlocks : Nat) (zero : α) : Traced α where
  alloc := init blockSize maxNumBlocks zero
  saved := fun _ => []

/-- An eviction of a sequence that is not evicted yet records its contents. -/
def record (t : Traced α) : Op α → UInt64 → List α
  | .evict seqId _ =>
    if (t.alloc.evictedSeqs.lookup seqId).isSome then t.saved
    else Function.update t.saved seqId (t.alloc.contents seqId)
  | _ => t.saved

def step (t : Traced α) (op : Op α) : Option (Traced α) :=
  (Allocator.step t.alloc op).map fun a => { alloc := a, saved := t.record op }

/-- A successful reload leaves the sequence with what it held when it was evicted, followed
    by the blocks that its table got in between. -/
def ReloadRestores (t : Traced α) : Op α → Prop
  | .reload seqId =>
    (t.alloc.reloadSequence seqId).1 = true →
      (t.alloc.reloadSequence seqId).2.contents seqId =
        t.saved seqId ++ (t.alloc.tableOf seqId).map (t.alloc.reloadSequence seqId).2.kvCache
  | _ => True

/-- The step does not disturb what is in the host buffer: no second sequence with blocks is
    evicted, no evicted sequence gets a block or is copied onto, and no reload runs out of
    blocks half way. -/
def Undisturbed (t : Traced α) : Op α → Prop
  | .evict seqId _ => t.alloc.evictedSeqs.lookup seqId = none → t.alloc.tableOf seqId ≠ [] →
      ∀ s n, t.alloc.evictedSeqs.lookup s = some n → n = 0
  | .extend seqId => ∀ n, t.alloc.evictedSeqs.lookup seqId = some n → 0 < n →
      t.alloc.freeList = []
  | .copy srcId dstId => ∀ n, t.alloc.evictedSeqs.lookup dstId = some n → 0 < n →
      t.alloc.tableOf srcId = []
  | .reload seqId => ∀ n, t.alloc.evictedSeqs.lookup seqId = some n →
      n ≤ t.alloc.freeList.length ∨ t.alloc.freeList = []
  | _ => True

/-! ## The invariant -/

/-- An evicted sequence has a table. When it had blocks, the table is empty and the host
    buffer holds their contents from slot 0 on. -/
def SavedOk (t : Traced α) (s : UInt64) : Prop :=
  ∀ n, t.alloc.evictedSeqs.lookup s = some n →
    (t.alloc.blockTables.lookup s).isSome = true ∧ (t.saved s).length = n ∧
      (0 < n → t.alloc.tableOf s = [] ∧
        t.saved s = (List.range n).map t.alloc.evictionHostBuf)

structure Inv (t : Traced α) : Prop where
  ledger : ∃ leak, Keeps leak t.alloc
  saved : ∀ s, SavedOk t s

theorem inv_start (blockSize : Int) (maxNumBlocks : Nat) (zero : α) :
    Inv (start blockSize maxNumBlocks zero) := by
  refine ⟨⟨_, keeps_init blockSize maxNumBlocks zero⟩, ?_⟩
  intro s n hn
  simp [start, init] at hn

variable {t : Traced α} {seqId : UInt64} {a' : Allocator α}

/-- An operation that only touches the table of `seqId` disturbs no other sequence. -/
theorem saved_of_onlyTable (hinv : ∀ s, SavedOk t s) (h : OnlyTable seqId t.alloc a')
    (hseq : ∀ n, t.alloc.evictedSeqs.lookup seqId = some n →
      (a'.blockTables.lookup seqId).isSome = true ∧ (0 < n → a'.tableOf seqId = [])) (s : UInt64) :
    SavedOk { t with alloc := a' } s := by
  intro n hn
  rw [h.evicted] at hn
  obtain ⟨htable, hlen, hheld⟩ := hinv s n hn
  dsimp only
  rw [h.host]
  by_cases hs : s = seqId
  · subst hs
    obtain ⟨hsome, hempty⟩ := hseq n hn
    exact ⟨hsome, hlen, fun hpos => ⟨hempty hpos, (hheld hpos).2⟩⟩
  · rw [h.tables s hs, tableOf, h.tables s hs]
    exact ⟨htable, hlen, hheld⟩

theorem allocate_saved (hinv : ∀ s, SavedOk t s) (n : Int) (s : UInt64) :
    SavedOk { t with alloc := (t.alloc.allocateSequence seqId n).2 } s := by
  refine saved_of_onlyTable hinv (allocateSequence_onlyTable t.alloc seqId n) ?_ s
  intro k hk
  obtain ⟨htable, -, hheld⟩ := hinv seqId k hk
  have hsame : (t.alloc.allocateSequence seqId n).2 = t.alloc := by
    rw [allocateSequence, if_pos htable]
  rw [hsame]
  exact ⟨htable, fun hpos => (hheld hpos).1⟩

theorem extend_saved (hinv : ∀ s, SavedOk t s) (hok : Undisturbed t (.extend seqId))
    (s : UInt64) : SavedOk { t with alloc := (t.alloc.extendSequence seqId).2 } s := by
  refine saved_of_onlyTable hinv (extendSequence_onlyTable t.alloc seqId) ?_ s
  intro n hn
  obtain ⟨htable, -, hheld⟩ := hinv seqId n hn
  obtain ⟨bt, hbt⟩ := Option.isSome_iff_exists.mp htable
  constructor
  · simp only [extendSequence, hbt]
    split
    · exact htable
    · simp
  · intro hpos
    have hsame : (t.alloc.extendSequence seqId).2 = t.alloc := by
      simp only [extendSequence, hbt, allocBlockLocked, hok n hn hpos]
    rw [hsame]
    exact (hheld hpos).1

theorem copy_saved (hinv : ∀ s, SavedOk t s) {srcId dstId : UInt64}
    (hok : Undisturbed t (.copy srcId dstId)) (s : UInt64) :
    SavedOk { t with alloc := (t.alloc.copySequence srcId dstId).2 } s := by
  refine saved_of_onlyTable hinv (copySequence_onlyTable t.alloc srcId dstId) ?_ s
  intro n hn
  obtain ⟨htable, -, hheld⟩ := hinv dstId n hn
  cases hsrc : t.alloc.blockTables.lookup srcId with
  | none =>
    simp only [copySequence, hsrc]
    exact ⟨htable, fun hpos => (hheld hpos).1⟩
  | some bt =>
    simp only [copySequence, hsrc]
    refine ⟨by simp, ?_⟩
    intro hpos
    have hempty := hok n hn hpos
    rw [tableOf, hsrc] at hempty
    simpa [tableOf] using hempty

theorem free_saved (hinv : ∀ s, SavedOk t s) (s : UInt64) :
    SavedOk { t with alloc := t.alloc.freeSequence seqId } s := by
  cases hbt : t.alloc.blockTables.lookup seqId with
  | none =>
    simp only [freeSequence, hbt]
    exact hinv s
  | some bt =>
    intro n hn
    have hsame := freeBlocks_same bt t.alloc
    simp only [freeSequence, hbt, hsame.evicted] at hn
    by_cases hs : s = seqId
    · subst hs
      rw [AList.lookup_erase] at hn
      cases hn
    · rw [AList.lookup_erase_ne hs] at hn
      obtain ⟨htable, hlen, hheld⟩ := hinv s n hn
      simp only [freeSequence, hbt, tableOf, hsame.tables, freeBlocks_host,
        AList.lookup_erase_ne hs]
      exact ⟨htable, hlen, hheld⟩

/-- A first eviction of a sequence with blocks takes the host buffer over: no other
    sequence may have blocks in it. -/
theorem evict_saved (hinv : ∀ s, SavedOk t s) {fresh : Nat → α}
    (hok : Undisturbed t (.evict seqId fresh)) (s : UInt64) :
    SavedOk { alloc := (t.alloc.evictSequence seqId fresh).2,
              saved := t.record (.evict seqId fresh) } s := by
  cases hev : t.alloc.evictedSeqs.lookup seqId with
  | some k =>
    obtain ⟨htable, -, -⟩ := hinv seqId k hev
    obtain ⟨bt, hbt⟩ := Option.isSome_iff_exists.mp htable
    simp only [evictSequence, hbt, hev, record, Option.isSome_some, if_true]
    exact hinv s
  | none =>
    simp only [record, hev, Option.isSome_none]
    cases hbt : t.alloc.blockTables.lookup seqId with
    | none =>
      intro n hn
      simp only [evictSequence, hbt] at hn ⊢
      have hs : s ≠ seqId := by
        rintro rfl
        rw [hev] at hn
        cases hn
      have hold := hinv s n hn
      simpa [Function.update_of_ne hs] using hold
    | some bt =>
      obtain ⟨hevicted, htables, hcopied, hkept⟩ := evictSequence_first hbt hev fresh
      have hcontents : t.alloc.contents seqId = bt.map t.alloc.kvCache := by
        rw [contents, tableOf, hbt, Option.getD_some]
      intro n hn
      dsimp only at hn ⊢
      rw [hevicted] at hn
      rw [tableOf, htables]
      by_cases hs : s = seqId
      · subst hs
        rw [AList.lookup_insert, Option.some.injEq] at hn
        subst hn
        rw [AList.lookup_insert]
        simp [Function.update_self, hcontents, hcopied]
      · rw [AList.lookup_insert_ne hs] at hn
        rw [AList.lookup_insert_ne hs]
        obtain ⟨htable, hlen, hheld⟩ := hinv s n hn
        have hsaved : (if false = true then t.saved
            else Function.update t.saved seqId (t.alloc.contents seqId)) s = t.saved s := by
          simp [Function.update_of_ne hs]
        rw [hsaved]
        refine ⟨htable, hlen, ?_⟩
        intro hpos
        have hnil : bt = [] := by
          by_contra hne
          have hzero := hok hev (by rw [tableOf, hbt]; exact hne) s n hn
          omega
        rw [hkept hnil]
        exact hheld hpos

/-- A reload either restores all blocks and ends the eviction, or leaves all as it was. -/
theorem reload_cases (hinv : Inv t) (hok : Undisturbed t (.reload seqId)) {n : Nat}
    (hn : t.alloc.evictedSeqs.lookup seqId = some n) :
    (∃ a', t.alloc.reloadSequence seqId = (true, a') ∧
      a'.contents seqId = t.saved seqId ++ (t.alloc.tableOf seqId).map a'.kvCache ∧
      a'.evictedSeqs = t.alloc.evictedSeqs.erase seqId ∧
      a'.evictionHostBuf = t.alloc.evictionHostBuf ∧
      ∀ s, s ≠ seqId → a'.blockTables.lookup s = t.alloc.blockTables.lookup s) ∨
    ∃ a', t.alloc.reloadSequence seqId = (false, a') ∧ OnlyTable seqId t.alloc a' ∧
      a'.blockTables.lookup seqId = t.alloc.blockTables.lookup seqId := by
  obtain ⟨leak, hledger⟩ := hinv.ledger
  obtain ⟨htable, hlen, hheld⟩ := hinv.saved seqId n hn
  obtain ⟨bt, hbt⟩ := Option.isSome_iff_exists.mp htable
  have htab : t.alloc.tableOf seqId = bt := by rw [tableOf, hbt, Option.getD_some]
  set a₁ : Allocator α := { t.alloc with blockTables := t.alloc.blockTables.insert seqId bt }
    with ha₁
  have hlook : a₁.blockTables.lookup seqId = some bt := AList.lookup_insert _
  have hone : OnlyTable seqId t.alloc a₁ :=
    ⟨⟨rfl, rfl, fun s hs => AList.lookup_insert_ne hs⟩, rfl, rfl⟩
  by_cases hfree : n ≤ t.alloc.freeList.length
  · left
    obtain ⟨a', hloop, honly, htable', hfill, -⟩ := reloadLoop_fills hlook hfree hledger.nodup 0
    have hreload : t.alloc.reloadSequence seqId =
        (true, { a' with evictedSeqs := a'.evictedSeqs.erase seqId }) := by
      simp only [reloadSequence, hn, hbt, Option.getD_some]
      rw [← ha₁, hloop]
    have hboth := hone.trans honly
    refine ⟨_, hreload, ?_, by rw [hboth.evicted], hboth.host, hboth.tables⟩
    show (a'.tableOf seqId).map a'.kvCache = t.saved seqId ++ (t.alloc.tableOf seqId).map a'.kvCache
    rw [htable', List.map_append, hfill, htab]
    rcases Nat.eq_zero_or_pos n with hzero | hpos
    · have hsaved : t.saved seqId = [] := List.eq_nil_of_length_eq_zero (hlen.trans hzero)
      simp [hsaved, hzero]
    · obtain ⟨hempty, hsaved⟩ := hheld hpos
      rw [htab] at hempty
      rw [hempty, hsaved, List.range_eq_range']
      simp [hone.host]
  · right
    have hnil : t.alloc.freeList = [] := (hok n hn).resolve_left hfree
    obtain ⟨k, rfl⟩ : ∃ k, n = k + 1 := Nat.exists_eq_succ_of_ne_zero (by omega)
    have hreload : t.alloc.reloadSequence seqId = (false, a₁) := by
      simp only [reloadSequence, hn, hbt, Option.getD_some, reloadLoop, allocBlockLocked, hnil, ha₁]
    exact ⟨a₁, hreload, hone, hlook.trans hbt.symm⟩

theorem reload_saved (hinv : Inv t) (hok : Undisturbed t (.reload seqId)) (s : UInt64) :
    SavedOk { t with alloc := (t.alloc.reloadSequence seqId).2 } s := by
  cases hev : t.alloc.evictedSeqs.lookup seqId with
  | none =>
    simp only [reloadSequence, hev]
    exact hinv.saved s
  | some k =>
    rcases reload_cases hinv hok hev with ⟨a', hr, -, hevicted, hhost, htables⟩ |
      ⟨a', hr, honly, hlook⟩
    · rw [hr]
      intro n hn
      dsimp only at hn ⊢
      rw [hevicted] at hn
      have hs : s ≠ seqId := by
        rintro rfl
        rw [AList.lookup_erase] at hn
        cases hn
      rw [AList.lookup_erase_ne hs] at hn
      rw [tableOf, htables s hs, hhost]
      exact hinv.saved s n hn
    · rw [hr]
      refine saved_of_onlyTable hinv.saved honly ?_ s
      intro n hn
      obtain ⟨htable, -, hheld⟩ := hinv.saved seqId n hn
      rw [tableOf, hlook]
      exact ⟨htable, fun hpos => (hheld hpos).1⟩

/-! ## Runs -/

theorem step_inv {op : Op α} {t' : Traced α} (hinv : Inv t) (hok : Undisturbed t op)
    (hst : step t op = some t') : Inv t' := by
  obtain ⟨a', ha, rfl⟩ := Option.map_eq_some_iff.mp hst
  obtain ⟨leak, hledger⟩ := hinv.ledger
  refine ⟨⟨_, step_keeps hledger ha⟩, ?_⟩
  cases op with
  | allocate seqId n =>
    cases ha
    exact allocate_saved hinv.saved n
  | extend seqId =>
    cases ha
    exact extend_saved hinv.saved hok
  | free seqId =>
    cases ha
    exact free_saved hinv.saved
  | copy srcId dstId =>
    cases ha
    exact copy_saved hinv.saved hok
  | evict seqId fresh =>
    cases ha
    exact evict_saved hinv.saved hok
  | reload seqId =>
    cases ha
    exact reload_saved hinv hok
  | write block x =>
    cases ha
    exact hinv.saved

theorem restores_of_inv {op : Op α} (hinv : Inv t) (hok : Undisturbed t op) :
    ReloadRestores t op := by
  cases op with
  | reload seqId =>
    intro hdone
    cases hev : t.alloc.evictedSeqs.lookup seqId with
    | none => simp [reloadSequence, hev] at hdone
    | some n =>
      rcases reload_cases hinv hok hev with ⟨a', hr, hcontents, -⟩ | ⟨a', hr, -⟩
      · rw [hr]
        exact hcontents
      · rw [hr] at hdone
        cases hdone
  | allocate seqId n => trivial
  | extend seqId => trivial
  | free seqId => trivial
  | copy srcId dstId => trivial
  | evict seqId fresh => trivial
  | write block x => trivial

/-- Along every run that does not disturb an evicted sequence, every successful reload
    restores what the sequence held when it was evicted. -/
theorem reload_restores (blockSize : Int) (maxNumBlocks : Nat) (zero : α) (ops : List (Op α))
    (hok : AllSteps step Undisturbed (start blockSize maxNumBlocks zero) ops) :
    AllSteps step ReloadRestores (start blockSize maxNumBlocks zero) ops := by
  refine allSteps_of_invariant ?_ ?_ (inv_start blockSize maxNumBlocks zero) hok
  · exact fun t op t' hinv hop hst => step_inv hinv hop hst
  · exact fun t op t' hinv hop _ => restores_of_inv hinv hop

/-- Two sequences of one block each, with contents 7 and 8, and the first one evicted. -/
def evictFirst : List (Op Nat) :=
  [.allocate 1 1, .allocate 2 1, .write 0 7, .write 1 8, .evict 1 fun _ => 0]

theorem reload_restores_first :
    AllSteps step ReloadRestores (start 16 4 0) (evictFirst ++ [.write 1 9, .reload 1]) := by
  apply reload_restores
  intro t₁ h₁
  cases h₁
  refine ⟨trivial, ?_⟩
  intro t₂ h₂
  cases h₂
  refine ⟨trivial, ?_⟩
  intro t₃ h₃
  cases h₃
  refine ⟨trivial, ?_⟩
  intro t₄ h₄
  cases h₄
  refine ⟨trivial, ?_⟩
  intro t₅ h₅
  cases h₅
  refine ⟨fun _ _ s n hn => (by cases hn), ?_⟩
  intro t₆ h₆
  cases h₆
  refine ⟨trivial, ?_⟩
  intro t₇ h₇
  cases h₇
  refine ⟨fun n hn => ?_, trivial⟩
  cases hn
  left
  decide

/-- With the second sequence evicted too, the reload of the first one gets its contents. -/
theorem second_evict_overwrites :
    ¬ AllSteps step ReloadRestores (start 16 4 0)
      ((evictFirst ++ [.evict 2 fun _ => 0]) ++ [.reload 1]) := by
  have hrun : (run step (start 16 4 0) (evictFirst ++ [.evict 2 fun _ => 0])).map
      (fun t => ((t.alloc.reloadSequence 1).1, (t.alloc.reloadSequence 1).2.contents 1,
        t.saved 1, t.alloc.tableOf 1)) = some (true, [8], [7], []) := by
    decide +kernel
  obtain ⟨t, ht, hview⟩ := Option.map_eq_some_iff.mp hrun
  simp only [Prod.mk.injEq] at hview
  obtain ⟨hdone, hcontents, hsaved, htable⟩ := hview
  intro h
  have hback := h.last ht rfl hdone
  rw [hcontents, hsaved, htable] at hback
  simp at hback

end Traced

end Allocator

end TruellmEngine.Cuda
