/-
  Concurrent CUDA calls do not notice each other while no step disturbs another call.

  The interleaving and a call alone place the same positions in different blocks, so they
  are compared position by position (`Agree`). A step does the same in both (`act_agree`),
  and a step of another call keeps the agreement (`agree_other`): its block table is its
  own (`Exclusive`), and its forward passes hit neither an exposed call's logits nor, on the
  megakernel path, its cells.
-/
import TruellmEngine.Cuda.Calls
import TruellmEngine.Cuda.Exclusive

namespace TruellmEngine.Cuda

open Lib Allocator

variable {ι Cell Logits Capture Book : Type*} {e : Engine Cell Logits Capture Book}
  {seqId : ι → UInt64}

/-! ## Slots and cells -/

theorem writeCells_other {slot : Nat → Nat} {pos len x : Nat} {new : Nat → Written ι Cell}
    (hx : ∀ k < len, slot (pos + k) ≠ x) (kv : Nat → Written ι Cell) :
    writeCells slot pos len new kv x = kv x := by
  unfold writeCells
  induction len with
  | zero => rfl
  | succ len ih =>
    rw [List.range_succ, List.foldl_append, List.foldl_cons, List.foldl_nil,
      Function.update_of_ne (hx len (by omega)).symm]
    exact ih fun k hk => hx k (by omega)

theorem writeCells_at {slot : Nat → Nat} {pos len k : Nat} {new : Nat → Written ι Cell}
    (hinj : ∀ p < pos + len, ∀ q < pos + len, slot p = slot q → p = q) (hk : k < len)
    (kv : Nat → Written ι Cell) : writeCells slot pos len new kv (slot (pos + k)) = new k := by
  unfold writeCells
  induction len with
  | zero => cases hk
  | succ len ih =>
    rw [List.range_succ, List.foldl_append, List.foldl_cons, List.foldl_nil]
    by_cases hlast : k = len
    · rw [hlast, Function.update_self]
    · have hne : slot (pos + k) ≠ slot (pos + len) := by
        intro heq
        have hpos := hinj (pos + k) (by omega) (pos + len) (by omega) heq
        omega
      rw [Function.update_of_ne hne]
      exact ih (fun p hp q hq => hinj p (by omega) q (by omega)) (by omega)

theorem writeCells_zero (slot : Nat → Nat) (hslot : ∀ p, slot p = p) (len : Nat)
    (new kv : Nat → Written ι Cell) (x : Nat) :
    writeCells slot 0 len new kv x = if x < len then new x else kv x := by
  split
  · rename_i hx
    have hat : writeCells slot 0 len new kv (slot (0 + x)) = new x :=
      writeCells_at (fun p _ q _ h => by rwa [hslot, hslot] at h) hx kv
    rwa [hslot, Nat.zero_add] at hat
  · rename_i hx
    apply writeCells_other
    intro k hk heq
    rw [hslot] at heq
    omega

theorem slotOf_megakernel (hmk : e.useMegakernel = true) (a : Allocator Unit) (s : UInt64)
    (p : Nat) : slotOf e a s p = p := by
  unfold slotOf
  rw [if_pos hmk]

/-- The slot of a position that the table covers: a block of the table, and an offset. -/
theorem slotOf_covered (hmk : e.useMegakernel = false) {a : Allocator Unit} {s : UInt64} {p : Nat}
    (hp : p < (a.tableOf s).length * e.blockSize) :
    ∃ b ∈ a.tableOf s, (a.tableOf s)[p / e.blockSize]? = some b ∧
      slotOf e a s p = b * e.blockSize + p % e.blockSize := by
  have hlt : p / e.blockSize < (a.tableOf s).length :=
    (Nat.div_lt_iff_lt_mul e.blockSize_pos).mpr hp
  refine ⟨(a.tableOf s)[p / e.blockSize], List.getElem_mem hlt, List.getElem?_eq_getElem hlt, ?_⟩
  unfold slotOf
  rw [if_neg (by simp [hmk]), List.getD_eq_getElem?_getD, List.getElem?_eq_getElem hlt,
    Option.getD_some]

/-- A slot determines its block and its offset. -/
theorem block_of_slot {b b' p q : Nat}
    (h : b * e.blockSize + p % e.blockSize = b' * e.blockSize + q % e.blockSize) :
    b = b' ∧ p % e.blockSize = q % e.blockSize := by
  have hp := Nat.mod_lt p e.blockSize_pos
  have hq := Nat.mod_lt q e.blockSize_pos
  have hb : ∀ c r, r < e.blockSize → (c * e.blockSize + r) / e.blockSize = c := by
    intro c r hr
    rw [Nat.mul_comm, Nat.mul_add_div e.blockSize_pos, Nat.div_eq_of_lt hr, Nat.add_zero]
  have hbb : b = b' := by
    rw [← hb b _ hp, h, hb b' _ hq]
  subst hbb
  exact ⟨rfl, by omega⟩

theorem slotOf_injective {a : Allocator Unit} (ha : Exclusive a) {s : UInt64} {n : Nat}
    (hn : e.useMegakernel = false → n ≤ (a.tableOf s).length * e.blockSize) :
    ∀ p < n, ∀ q < n, slotOf e a s p = slotOf e a s q → p = q := by
  intro p hp q hq heq
  cases hmk : e.useMegakernel with
  | true =>
    rw [slotOf_megakernel hmk, slotOf_megakernel hmk] at heq
    exact heq
  | false =>
    have hcover := hn hmk
    obtain ⟨b, -, hbp, hsp⟩ := slotOf_covered hmk (Nat.lt_of_lt_of_le hp hcover)
    obtain ⟨b', -, hbq, hsq⟩ := slotOf_covered hmk (Nat.lt_of_lt_of_le hq hcover)
    rw [hsp, hsq] at heq
    obtain ⟨rfl, hoff⟩ := block_of_slot heq
    have hnodup : (a.tableOf s).Nodup := by
      unfold tableOf
      cases hbt : a.blockTables.lookup s with
      | none => exact List.nodup_nil
      | some bt => exact ha.table_nodup hbt
    have hdiv : p / e.blockSize = q / e.blockSize := by
      have hlt := (List.getElem?_eq_some_iff.mp hbp).1
      exact (List.getElem?_inj hlt hnodup).mp (hbp.trans hbq.symm)
    rw [← Nat.div_add_mod p e.blockSize, hdiv, hoff, Nat.div_add_mod]

/-- A block appended to the table moves no position that the table covered. -/
theorem slotOf_append {a a' : Allocator Unit} {s : UInt64} {b p : Nat}
    (htable : a'.tableOf s = a.tableOf s ++ [b])
    (hp : e.useMegakernel = false → p < (a.tableOf s).length * e.blockSize) :
    slotOf e a' s p = slotOf e a s p := by
  unfold slotOf
  rw [htable]
  cases hmk : e.useMegakernel with
  | true => rfl
  | false =>
    have hlt : p / e.blockSize < (a.tableOf s).length :=
      (Nat.div_lt_iff_lt_mul e.blockSize_pos).mpr (hp hmk)
    rw [List.getD_eq_getElem?_getD, List.getD_eq_getElem?_getD, List.getElem?_append_left hlt]

theorem slotOf_congr {a a' : Allocator Unit} {s : UInt64} (htable : a'.tableOf s = a.tableOf s)
    (p : Nat) : slotOf e a' s p = slotOf e a s p := by
  unfold slotOf
  rw [htable]

/-- Positions of two sequences that their tables cover are in different slots. -/
theorem slotOf_apart {a : Allocator Unit} (ha : Exclusive a) (hmk : e.useMegakernel = false)
    {s s' : UInt64} (hs : s' ≠ s) {p q : Nat} (hp : p < (a.tableOf s).length * e.blockSize)
    (hq : q < (a.tableOf s').length * e.blockSize) : slotOf e a s p ≠ slotOf e a s' q := by
  intro heq
  obtain ⟨b, hb, -, hsp⟩ := slotOf_covered hmk hp
  obtain ⟨b', hb', -, hsq⟩ := slotOf_covered hmk hq
  rw [hsp, hsq] at heq
  obtain ⟨rfl, -⟩ := block_of_slot heq
  unfold tableOf at hb hb'
  cases hbt : a.blockTables.lookup s with
  | none => simp [hbt] at hb
  | some bt =>
    cases hbt' : a.blockTables.lookup s' with
    | none => simp [hbt'] at hb'
    | some bt' =>
      rw [hbt, Option.getD_some] at hb
      rw [hbt', Option.getD_some] at hb'
      exact ha.tables_disjoint hs hbt hbt' b hb hb'

/-! ## The phases -/

namespace Phase

/-- The next position lies in a block that the call has. -/
def fits : Phase → Bool
  | .reduce | .prefill | .decode => true
  | _ => false

/-- No position is filled yet. -/
def early (megakernel : Bool) : Phase → Bool
  | .allocate | .reduce => true
  | .extend _ | .prefill => megakernel
  | _ => false

end Phase

theorem beginPrefill_cases (c : Call) :
    (∃ k, e.useMegakernel = true ∧ c.beginPrefill e = { c with phase := .extend k }) ∨
      c.beginPrefill e = { c with phase := .prefill } ∨
      (e.useMegakernel = false ∧ c.prompt = [] ∧
        c.beginPrefill e = { c with phase := .sample }) := by
  unfold Call.beginPrefill
  cases hmk : e.useMegakernel with
  | true =>
    rw [if_pos rfl]
    split
    · exact Or.inl ⟨_, rfl, rfl⟩
    · exact Or.inr (Or.inl rfl)
  | false =>
    rw [if_neg (by decide)]
    split
    · rename_i hempty
      exact Or.inr (Or.inr ⟨rfl, hempty, rfl⟩)
    · exact Or.inr (Or.inl rfl)

theorem afterExtend_cases (c : Call) (k : Nat) :
    (∃ k', e.useMegakernel = true ∧ c.afterExtend e k = { c with phase := .extend k' }) ∨
      c.afterExtend e k = { c with phase := .prefill } := by
  unfold Call.afterExtend
  split
  · rename_i hmore
    exact Or.inl ⟨_, (Bool.and_eq_true_iff.mp hmore).1, rfl⟩
  · exact Or.inr rfl

theorem afterPrefill_cases (c : Call) :
    c.afterPrefill e = { c with phase := .sample } ∨
      (e.useMegakernel = false ∧ c.afterPrefill e = { c with phase := .extend c.seqPos }) ∨
      (e.useMegakernel = false ∧ c.seqPos % e.blockSize ≠ 0 ∧
        c.afterPrefill e = { c with phase := .prefill }) := by
  unfold Call.afterPrefill
  split
  · exact Or.inl rfl
  · rename_i hmore
    have hmk : e.useMegakernel = false := by
      cases hmk : e.useMegakernel with
      | true => simp [hmk] at hmore
      | false => rfl
    split
    · exact Or.inr (Or.inl ⟨hmk, rfl⟩)
    · rename_i hmod
      exact Or.inr (Or.inr ⟨hmk, hmod, rfl⟩)

theorem afterSample_cases (c : Call) (token : Token) :
    ∃ r, c.afterSample e token =
        { c with nextToken := token, phase := .release, result := r } ∨
      c.afterSample e token =
        { c with nextToken := token, phase := .decodeExtend, result := r } ∨
      (c.seqPos % e.blockSize ≠ 0 ∧ c.afterSample e token =
        { c with nextToken := token, phase := .decode, result := r }) := by
  unfold Call.afterSample
  dsimp only
  split
  · exact ⟨_, Or.inl rfl⟩
  · split
    · exact ⟨_, Or.inl rfl⟩
    · split
      · exact ⟨_, Or.inl rfl⟩
      · split
        · exact ⟨_, Or.inr (Or.inl rfl)⟩
        · rename_i hmod
          exact ⟨_, Or.inr (Or.inr ⟨hmod, rfl⟩)⟩

theorem beginPrefill_live (c : Call) : (c.beginPrefill e).phase.live = true := by
  rcases beginPrefill_cases (e := e) c with ⟨k, -, h⟩ | h | ⟨-, -, h⟩
  · rw [h]
    rfl
  · rw [h]
    rfl
  · rw [h]
    rfl

theorem afterExtend_live (c : Call) (k : Nat) : (c.afterExtend e k).phase.live = true := by
  rcases afterExtend_cases (e := e) c k with ⟨k', -, h⟩ | h
  · rw [h]
    rfl
  · rw [h]
    rfl

theorem afterPrefill_live (c : Call) : (c.afterPrefill e).phase.live = true := by
  rcases afterPrefill_cases (e := e) c with h | ⟨-, h⟩ | ⟨-, -, h⟩
  · rw [h]
    rfl
  · rw [h]
    rfl
  · rw [h]
    rfl

theorem afterSample_live (c : Call) (token : Token) :
    (c.afterSample e token).phase.live = true := by
  obtain ⟨r, h | h | ⟨-, h⟩⟩ := afterSample_cases (e := e) c token
  · rw [h]
    rfl
  · rw [h]
    rfl
  · rw [h]
    rfl

/-! ## The invariant and the agreement -/

structure PoolOk (e : Engine Cell Logits Capture Book) (a : Allocator Unit) : Prop where
  exclusive : Exclusive a
  blocks : a.maxNumBlocks = e.maxNumBlocks
  size : a.blockSize = e.blockSize

/-- The live calls are those with a block table. -/
structure Inv (e : Engine Cell Logits Capture Book) (seqId : ι → UInt64)
    (w : Calls ι Cell Logits Capture Book) : Prop where
  pool : PoolOk e w.shared.alloc
  live : ∀ i, (w.shared.alloc.blockTables.lookup (seqId i)).isSome = (w.locals i).phase.live

/-- A call in the interleaving, on device `s`, and alone, on device `t`: its table is as long,
    and the only one on `t`; its positions hold the same cells, its own; and so does the
    logits buffer when the call is about to sample. Before its first pass, `t` is new. -/
structure Agree (e : Engine Cell Logits Capture Book) (seqId : ι → UInt64) (i : ι)
    (s t : Device ι Cell Logits Capture Book) (c : Call) : Prop where
  pool : PoolOk e t.alloc
  others : ∀ q, q ≠ seqId i → t.alloc.blockTables.lookup q = none
  live : (t.alloc.blockTables.lookup (seqId i)).isSome = c.phase.live
  length : (t.alloc.tableOf (seqId i)).length = (s.alloc.tableOf (seqId i)).length
  room : c.phase.reads = true → e.useMegakernel = false →
    c.seqPos ≤ (s.alloc.tableOf (seqId i)).length * e.blockSize ∧
      (c.phase.fits = true → c.seqPos < (s.alloc.tableOf (seqId i)).length * e.blockSize)
  cells : c.phase.reads = true → ∀ p < c.seqPos,
    t.kv (slotOf e t.alloc (seqId i) p) = s.kv (slotOf e s.alloc (seqId i) p) ∧
      ∃ n, (s.kv (slotOf e s.alloc (seqId i) p)).writer = some (i, n)
  logits : c.phase = .sample → t.logits = s.logits ∧ s.logits.writer = some (i, c.passes)
  capture : c.phase = .allocate ∨ c.phase = .reduce → t.capture = e.noCapture
  early : c.phase.early e.useMegakernel = true → c.seqPos = 0
  blank : c.phase.early e.useMegakernel = true →
    t.codebook = e.noCodebook ∧ ∀ x, (t.kv x).value = e.zeroCell

variable {i : ι} {s t : Device ι Cell Logits Capture Book} {c : Call}

theorem PoolOk.move {a a' : Allocator Unit} (h : PoolOk e a) (hex : Exclusive a') {q : UInt64}
    (hother : OtherTables q a a') : PoolOk e a' :=
  ⟨hex, hother.blocks.trans h.blocks, hother.size.trans h.size⟩

/-- Alone, a call leaves free what is not in its own table. -/
theorem Agree.alone_free (h : Agree e seqId i s t c) :
    t.alloc.freeList.length + (s.alloc.tableOf (seqId i)).length = e.maxNumBlocks := by
  have hroom := h.pool.exclusive.room
  have htotal : total List.length t.alloc.blockTables = (t.alloc.tableOf (seqId i)).length := by
    unfold tableOf
    cases hbt : t.alloc.blockTables.lookup (seqId i) with
    | none =>
      apply total_eq_zero
      intro q
      by_cases hq : q = seqId i
      · rw [hq, hbt]
      · exact h.others q hq
    | some bt => exact total_single List.length hbt h.others
  rw [htotal, h.length, h.pool.blocks] at hroom
  exact hroom

/-- In the interleaving, the blocks of a call are not free. -/
theorem PoolOk.free_le {a : Allocator Unit} (h : PoolOk e a) (q : UInt64) :
    a.freeList.length + (a.tableOf q).length ≤ e.maxNumBlocks := by
  have hroom := h.exclusive.room
  have hle : (a.tableOf q).length ≤ total List.length a.blockTables := by
    unfold tableOf
    cases hbt : a.blockTables.lookup q with
    | none => exact Nat.zero_le _
    | some bt => exact le_total List.length hbt
  rw [h.blocks] at hroom
  omega

theorem OtherTables.same (q : UInt64) (a : Allocator Unit) : OtherTables q a a :=
  ⟨rfl, rfl, fun _ _ => rfl⟩

theorem runForward_ok {pass pos : Nat} {tokens : List Token} {q : UInt64}
    (h : runForward e i q pass s pos tokens = .ok t) :
    t.alloc = s.alloc ∧ t.codebook = s.codebook ∧ t.logits.writer = some (i, pass) ∧
      ∃ new, t.kv = writeCells (slotOf e s.alloc q) pos tokens.length new s.kv := by
  unfold runForward at h
  split at h
  · cases h
  · cases h
    exact ⟨rfl, rfl, rfl, _, rfl⟩

@[simp] theorem prefilled_alloc (prompt : List Token) :
    (s.prefilled e prompt).alloc = s.alloc := by
  unfold Device.prefilled
  split
  · rfl
  · rfl

@[simp] theorem prefilled_logits (prompt : List Token) :
    (s.prefilled e prompt).logits = s.logits := by
  unfold Device.prefilled
  split
  · rfl
  · rfl

theorem prefilled_legacy (hmk : e.useMegakernel = false) (prompt : List Token) :
    s.prefilled e prompt = s := by
  unfold Device.prefilled
  rw [if_neg (by simp [hmk])]

theorem prefilled_kv (hmk : e.useMegakernel = true) (prompt : List Token) (x : Nat) :
    (s.prefilled e prompt).kv x =
      ⟨(e.runKvCompressionPass s.codebook prompt.length fun x => (s.kv x).value).2 x,
        (s.kv x).writer⟩ := by
  unfold Device.prefilled
  rw [if_pos hmk]
  rfl

theorem extendSequence_pool {q : UInt64} (hp : PoolOk e s.alloc)
    (hq : (s.alloc.blockTables.lookup q).isSome = true) :
    (s.alloc.extendSequence q).2.blockTables.lookup q ≠ none ∧
      PoolOk e (s.alloc.extendSequence q).2 ∧
      OtherTables q s.alloc (s.alloc.extendSequence q).2 := by
  obtain ⟨bt, hbt⟩ := Option.isSome_iff_exists.mp hq
  rcases extendSequence_spec hp.exclusive hbt with ⟨-, a', id, hr, hex, hother, hlook⟩ | ⟨-, hr⟩
  · rw [hr]
    exact ⟨by simp [hlook], hp.move hex hother, hother⟩
  · rw [hr]
    exact ⟨by simp [hbt], hp, OtherTables.same q s.alloc⟩

/-- What a step does to the allocator: the pool stays in order, only the call's own table
    changes, and the call has one as long as it is live. -/
theorem act_pool (hp : PoolOk e s.alloc)
    (hlive : (s.alloc.blockTables.lookup (seqId i)).isSome = c.phase.live) :
    PoolOk e (act e seqId i s c).1.alloc ∧
      OtherTables (seqId i) s.alloc (act e seqId i s c).1.alloc ∧
      ((act e seqId i s c).1.alloc.blockTables.lookup (seqId i)).isSome =
        (act e seqId i s c).2.phase.live := by
  have hsame := OtherTables.same (seqId i) s.alloc
  unfold act
  cases hphase : c.phase with
  | allocate =>
    rw [hphase] at hlive
    have hnone : s.alloc.blockTables.lookup (seqId i) = none := by simpa [Phase.live] using hlive
    rcases allocateSequence_spec hp.exclusive hnone c.req.tokens.length with
      ⟨-, a', bt, hr, hex, hother, hlook, -⟩ | ⟨-, hr⟩
    · rw [hr]
      exact ⟨hp.move hex hother, hother, by simp [hlook, Phase.live]⟩
    · rw [hr]
      exact ⟨hp, hsame, by simp [hnone, Phase.live]⟩
  | reduce =>
    rw [hphase] at hlive
    exact ⟨hp, hsame, hlive.trans (beginPrefill_live _).symm⟩
  | extend k =>
    rw [hphase] at hlive
    obtain ⟨hsome, hpool, hother⟩ := extendSequence_pool hp hlive
    dsimp only
    split
    · rename_i a hr
      rw [hr] at hsome hpool hother
      exact ⟨hpool, hother, by simpa [Call.fail, Phase.live, Option.isSome_iff_ne_none] using hsome⟩
    · rename_i id a hr
      rw [hr] at hsome hpool hother
      exact ⟨hpool, hother,
        (Option.isSome_iff_ne_none.mpr hsome).trans (afterExtend_live c k).symm⟩
  | prefill =>
    rw [hphase] at hlive
    dsimp only
    split
    · exact ⟨hp, hsame, hlive⟩
    · rename_i d hr
      obtain ⟨halloc, -⟩ := runForward_ok hr
      dsimp only
      rw [prefilled_alloc, halloc]
      exact ⟨hp, hsame, hlive.trans (afterPrefill_live _).symm⟩
  | sample =>
    rw [hphase] at hlive
    exact ⟨hp, hsame, hlive.trans (afterSample_live c _).symm⟩
  | decodeExtend =>
    rw [hphase] at hlive
    obtain ⟨hsome, hpool, hother⟩ := extendSequence_pool hp hlive
    dsimp only
    split
    · rename_i a hr
      rw [hr] at hsome hpool hother
      exact ⟨hpool, hother, Option.isSome_iff_ne_none.mpr hsome⟩
    · rename_i id a hr
      rw [hr] at hsome hpool hother
      exact ⟨hpool, hother, Option.isSome_iff_ne_none.mpr hsome⟩
  | decode =>
    rw [hphase] at hlive
    dsimp only
    split
    · exact ⟨hp, hsame, hlive⟩
    · rename_i d hr
      obtain ⟨halloc, -⟩ := runForward_ok hr
      rw [halloc]
      exact ⟨hp, hsame, hlive⟩
  | release =>
    obtain ⟨hex, hother, hlook⟩ := freeSequence_spec hp.exclusive (seqId i)
    exact ⟨hp.move hex hother, hother, by simp [hlook, Phase.live]⟩
  | returned =>
    rw [hphase] at hlive
    exact ⟨hp, hsame, by rw [hphase]; exact hlive⟩

/-! ## A step does the same in the interleaving and alone -/

theorem Agree.retire (h : Agree e seqId i s t c) (hlive : c.phase.live = true) {c' : Call}
    (hphase : c'.phase = .release) : Agree e seqId i s t c' where
  pool := h.pool
  others := h.others
  live := by rw [h.live, hlive, hphase]; rfl
  length := h.length
  room := fun hr => by simp [hphase, Phase.reads] at hr
  cells := fun hr => by simp [hphase, Phase.reads] at hr
  logits := fun hs => by simp [hphase] at hs
  capture := fun hc => by simp [hphase] at hc
  early := fun he => by simp [hphase, Phase.early] at he
  blank := fun he => by simp [hphase, Phase.early] at he

/-- A call that has returned has no table on either device and reads nothing. -/
theorem agree_returned (hpool : PoolOk e t.alloc)
    (hothers : ∀ q, q ≠ seqId i → t.alloc.blockTables.lookup q = none)
    (hs : s.alloc.blockTables.lookup (seqId i) = none)
    (ht : t.alloc.blockTables.lookup (seqId i) = none) (hphase : c.phase = .returned) :
    Agree e seqId i s t c where
  pool := hpool
  others := hothers
  live := by rw [ht, hphase]; rfl
  length := by simp [tableOf, hs, ht]
  room := fun hr => by simp [hphase, Phase.reads] at hr
  cells := fun hr => by simp [hphase, Phase.reads] at hr
  logits := fun hsample => by simp [hphase] at hsample
  capture := fun hc => by simp [hphase] at hc
  early := fun he => by simp [hphase, Phase.early] at he
  blank := fun he => by simp [hphase, Phase.early] at he

/-- The allocator gives the call a block in the interleaving if and only if it does alone. -/
theorem extend_agree (hp : PoolOk e s.alloc) (h : Agree e seqId i s t c)
    (hs : (s.alloc.blockTables.lookup (seqId i)).isSome = true) (hlive : c.phase.live = true)
    (hok : s.alloc.freeList ≠ [] ∨ e.maxNumBlocks ≤ (s.alloc.tableOf (seqId i)).length) :
    (s.alloc.extendSequence (seqId i) = (none, s.alloc) ∧
      t.alloc.extendSequence (seqId i) = (none, t.alloc)) ∨
    ∃ a a' id id', s.alloc.extendSequence (seqId i) = (some id, a) ∧
      t.alloc.extendSequence (seqId i) = (some id', a') ∧
      a.tableOf (seqId i) = s.alloc.tableOf (seqId i) ++ [id] ∧
      a'.tableOf (seqId i) = t.alloc.tableOf (seqId i) ++ [id'] ∧
      PoolOk e a' ∧ OtherTables (seqId i) t.alloc a' ∧
      (a'.blockTables.lookup (seqId i)).isSome = true := by
  obtain ⟨bt, hbt⟩ := Option.isSome_iff_exists.mp hs
  obtain ⟨bt', hbt'⟩ := Option.isSome_iff_exists.mp (h.live.trans hlive)
  have hbusy := hp.free_le (seqId i)
  have halone := h.alone_free
  rcases extendSequence_spec hp.exclusive hbt with ⟨hfree, a, id, hr, -, -, hlook⟩ | ⟨hnone, hr⟩
  · right
    have hpos : 0 < s.alloc.freeList.length := List.length_pos_iff.mpr hfree
    rcases extendSequence_spec h.pool.exclusive hbt' with
      ⟨-, a', id', hr', hex', hother', hlook'⟩ | ⟨hnone', -⟩
    · refine ⟨a, a', id, id', hr, hr', ?_, ?_, h.pool.move hex' hother', hother', by simp [hlook']⟩
      · simp [tableOf, hlook, hbt]
      · simp [tableOf, hlook', hbt']
    · rw [hnone', List.length_nil] at halone
      omega
  · left
    refine ⟨hr, ?_⟩
    rcases extendSequence_spec h.pool.exclusive hbt' with ⟨hfree', -⟩ | ⟨-, hr'⟩
    · have hpos' : 0 < t.alloc.freeList.length := List.length_pos_iff.mpr hfree'
      rcases hok with hsome | hfull
      · exact absurd hnone hsome
      · omega
    · exact hr'

/-- With one more block in both tables, the next position fits. -/
theorem Agree.grow (h : Agree e seqId i s t c) (hreads : c.phase.reads = true)
    {a a' : Allocator Unit} {id id' : Nat}
    (hs : a.tableOf (seqId i) = s.alloc.tableOf (seqId i) ++ [id])
    (ht : a'.tableOf (seqId i) = t.alloc.tableOf (seqId i) ++ [id'])
    (hpool : PoolOk e a') (hother : OtherTables (seqId i) t.alloc a')
    (hlook : (a'.blockTables.lookup (seqId i)).isSome = true) {ph : Phase}
    (hph : ph.reads = true ∧ ph.live = true ∧ ph ≠ .sample ∧ ph ≠ .reduce)
    (hearly : ph.early e.useMegakernel = true → c.phase.early e.useMegakernel = true) :
    Agree e seqId i { s with alloc := a } { t with alloc := a' } { c with phase := ph } where
  pool := hpool
  others := fun q hq => (hother.tables q hq).trans (h.others q hq)
  live := hlook.trans hph.2.1.symm
  length := by
    show (a'.tableOf (seqId i)).length = (a.tableOf (seqId i)).length
    rw [hs, ht, List.length_append, List.length_append, h.length]
    rfl
  room := by
    intro _ hmk
    obtain ⟨hle, -⟩ := h.room hreads hmk
    have hpos := e.blockSize_pos
    dsimp only
    rw [hs, List.length_append, List.length_singleton, Nat.add_mul]
    exact ⟨by omega, fun _ => by omega⟩
  cells := by
    intro _ p hp
    obtain ⟨heq, hown⟩ := h.cells hreads p hp
    dsimp only
    rw [slotOf_append ht, slotOf_append hs]
    · exact ⟨heq, hown⟩
    · intro hmk
      have hle := (h.room hreads hmk).1
      exact Nat.lt_of_lt_of_le hp hle
    · intro hmk
      have hle := (h.room hreads hmk).1
      rw [h.length]
      exact Nat.lt_of_lt_of_le hp hle
  logits := fun hsample => absurd hsample hph.2.2.1
  capture := by
    intro hc
    rcases hc with hc | hc
    · have hlive := hph.2.1
      have hc' : ph = .allocate := hc
      rw [hc'] at hlive
      cases hlive
    · exact absurd hc hph.2.2.2
  early := fun he => h.early (hearly he)
  blank := fun he => h.blank (hearly he)

/-- A forward pass fails in both or writes the same cells and logits in both. -/
theorem forward_agree (hp : PoolOk e s.alloc) (h : Agree e seqId i s t c)
    (hreads : c.phase.reads = true) {tokens : List Token}
    (hfit : e.useMegakernel = false →
      c.seqPos + tokens.length ≤ (s.alloc.tableOf (seqId i)).length * e.blockSize)
    (pass : Nat) :
    (∃ ec, runForward e i (seqId i) pass s c.seqPos tokens = .error ec ∧
      runForward e i (seqId i) pass t c.seqPos tokens = .error ec) ∨
    ∃ s' t', runForward e i (seqId i) pass s c.seqPos tokens = .ok s' ∧
      runForward e i (seqId i) pass t c.seqPos tokens = .ok t' ∧
      t'.logits = s'.logits ∧
      ∀ p < c.seqPos + tokens.length,
        t'.kv (slotOf e t.alloc (seqId i) p) = s'.kv (slotOf e s.alloc (seqId i) p) ∧
          ∃ n, (s'.kv (slotOf e s.alloc (seqId i) p)).writer = some (i, n) := by
  have hread : ((List.range c.seqPos).map fun p => (t.kv (slotOf e t.alloc (seqId i) p)).value) =
      (List.range c.seqPos).map fun p => (s.kv (slotOf e s.alloc (seqId i) p)).value := by
    apply List.map_congr_left
    intro p hp
    rw [(h.cells hreads p (List.mem_range.mp hp)).1]
  unfold runForward
  rw [hread]
  cases e.forward ((List.range c.seqPos).map fun p =>
      (s.kv (slotOf e s.alloc (seqId i) p)).value) tokens with
  | error ec => exact Or.inl ⟨ec, rfl, rfl⟩
  | ok r =>
    right
    refine ⟨_, _, rfl, rfl, rfl, ?_⟩
    have hinjs := slotOf_injective (s := seqId i) hp.exclusive hfit
    have hinjt := slotOf_injective (s := seqId i) (n := c.seqPos + tokens.length)
      h.pool.exclusive (by rw [h.length]; exact hfit)
    intro p hlt
    dsimp only
    by_cases hold : p < c.seqPos
    · rw [writeCells_other, writeCells_other]
      · exact h.cells hreads p hold
      · intro k hk heq
        have hpk := hinjs (c.seqPos + k) (by omega) p hlt heq
        omega
      · intro k hk heq
        have hpk := hinjt (c.seqPos + k) (by omega) p hlt heq
        omega
    · obtain ⟨k, rfl⟩ := Nat.exists_eq_add_of_le (Nat.le_of_not_lt hold)
      rw [writeCells_at hinjs (by omega), writeCells_at hinjt (by omega)]
      exact ⟨rfl, pass, rfl⟩

/-- The next phase on the same devices, when it needs no logits. -/
theorem Agree.proceed (h : Agree e seqId i s t c) (hreads : c.phase.reads = true)
    (hlive : c.phase.live = true) {c' : Call} (hpos : c'.seqPos = c.seqPos)
    (hph : c'.phase.live = true ∧ c'.phase ≠ .sample ∧ c'.phase ≠ .allocate ∧ c'.phase ≠ .reduce)
    (hfits : e.useMegakernel = false → c'.phase.fits = true →
      c.seqPos < (s.alloc.tableOf (seqId i)).length * e.blockSize)
    (hearly : c'.phase.early e.useMegakernel = true → c.phase.early e.useMegakernel = true) :
    Agree e seqId i s t c' where
  pool := h.pool
  others := h.others
  live := by rw [h.live, hlive, hph.1]
  length := h.length
  room := fun _ hmk => by
    rw [hpos]
    exact ⟨(h.room hreads hmk).1, hfits hmk⟩
  cells := fun _ => by
    rw [hpos]
    exact h.cells hreads
  logits := fun hs => absurd hs hph.2.1
  capture := fun hc => (hc.elim hph.2.2.1 hph.2.2.2).elim
  early := fun he => hpos.trans (h.early (hearly he))
  blank := fun he => h.blank (hearly he)

/-- After a forward pass the call may sample. -/
theorem Agree.filled (h : Agree e seqId i s t c) (hlive : c.phase.live = true)
    {s' t' : Device ι Cell Logits Capture Book} (hs : s'.alloc = s.alloc) (ht : t'.alloc = t.alloc)
    {c' : Call} (hlogits : t'.logits = s'.logits ∧ s'.logits.writer = some (i, c'.passes))
    (hcells : ∀ p < c'.seqPos,
      t'.kv (slotOf e t.alloc (seqId i) p) = s'.kv (slotOf e s.alloc (seqId i) p) ∧
        ∃ n, (s'.kv (slotOf e s.alloc (seqId i) p)).writer = some (i, n))
    (hph : c'.phase.live = true ∧ c'.phase ≠ .allocate ∧ c'.phase ≠ .reduce)
    (hroom : e.useMegakernel = false →
      c'.seqPos ≤ (s.alloc.tableOf (seqId i)).length * e.blockSize ∧
        (c'.phase.fits = true → c'.seqPos < (s.alloc.tableOf (seqId i)).length * e.blockSize))
    (hearly : c'.phase.early e.useMegakernel = false) : Agree e seqId i s' t' c' where
  pool := by
    rw [ht]
    exact h.pool
  others := by
    rw [ht]
    exact h.others
  live := by rw [ht, h.live, hlive, hph.1]
  length := by
    rw [hs, ht]
    exact h.length
  room := fun _ => by
    rw [hs]
    exact hroom
  cells := fun _ => by
    rw [hs, ht]
    exact hcells
  logits := fun _ => hlogits
  capture := fun hc => (hc.elim hph.2.1 hph.2.2).elim
  early := fun he => by simp [hearly] at he
  blank := fun he => by simp [hearly] at he

/-- What is to show of a step: the call does the same on both devices, and they agree
    afterwards. -/
def StepsAlike (e : Engine Cell Logits Capture Book) (seqId : ι → UInt64) (i : ι)
    (s t : Device ι Cell Logits Capture Book) (c : Call) : Prop :=
  (act e seqId i t c).2 = (act e seqId i s c).2 ∧
    Agree e seqId i (act e seqId i s c).1 (act e seqId i t c).1 (act e seqId i s c).2

theorem allocate_alike (hp : PoolOk e s.alloc) (h : Agree e seqId i s t c)
    (hs : s.alloc.blockTables.lookup (seqId i) = none) (hphase : c.phase = .allocate)
    (hok : s.alloc.promptBlocks c.req.tokens.length ≤ s.alloc.freeList.length ∨
      e.maxNumBlocks < s.alloc.promptBlocks c.req.tokens.length) : StepsAlike e seqId i s t c := by
  have ht : t.alloc.blockTables.lookup (seqId i) = none := by
    have hlive := h.live
    rw [hphase] at hlive
    simpa [Phase.live] using hlive
  have hsame : t.alloc.promptBlocks c.req.tokens.length =
      s.alloc.promptBlocks c.req.tokens.length := by
    unfold promptBlocks
    rw [h.pool.size, hp.size]
  have hbusy := hp.free_le (seqId i)
  have halone := h.alone_free
  have hpos : c.seqPos = 0 := h.early (by rw [hphase]; rfl)
  unfold StepsAlike act
  simp only [hphase]
  rcases allocateSequence_spec hp.exclusive hs c.req.tokens.length with
    ⟨hfree, a, bt, hr, -, -, hlook, hlen⟩ | ⟨hfull, hr⟩
  · rcases allocateSequence_spec h.pool.exclusive ht c.req.tokens.length with
      ⟨-, a', bt', hr', hex', hother', hlook', hlen'⟩ | ⟨hfull', -⟩
    · rw [hr, hr']
      have hone : 0 < bt.length := by
        rw [hlen]
        unfold promptBlocks
        omega
      refine ⟨rfl, h.pool.move hex' hother', ?_, ?_, ?_, ?_, ?_, ?_, ?_, ?_, ?_⟩
      · exact fun q hq => (hother'.tables q hq).trans (h.others q hq)
      · simp [hlook', Phase.live]
      · simp [tableOf, hlook, hlook', hlen, hlen', hsame]
      · intro _ _
        have hroom := Nat.mul_pos hone e.blockSize_pos
        simp only [if_true, tableOf, hlook, Option.getD_some, hpos]
        exact ⟨by omega, fun _ => hroom⟩
      · intro _ p hlt
        simp only [if_true, hpos] at hlt
        cases hlt
      · intro hsample
        cases hsample
      · exact fun _ => h.capture (Or.inl hphase)
      · exact fun _ => hpos
      · exact fun _ => h.blank (by rw [hphase]; rfl)
    · omega
  · rcases allocateSequence_spec h.pool.exclusive ht c.req.tokens.length with
      ⟨hfree', -⟩ | ⟨-, hr'⟩
    · omega
    · rw [hr, hr']
      exact ⟨rfl, agree_returned h.pool h.others hs ht rfl⟩

theorem reduce_alike (h : Agree e seqId i s t c) (hphase : c.phase = .reduce)
    (hok : e.compressTokens s.capture c.req.tokens = e.compressTokens e.noCapture c.req.tokens ∧
      (e.useMegakernel = true ∨ e.compressTokens e.noCapture c.req.tokens ≠ [])) :
    StepsAlike e seqId i s t c := by
  have hearly : ∀ {ph : Phase}, ph.early e.useMegakernel = true →
      c.phase.early e.useMegakernel = true := fun _ => by rw [hphase]; rfl
  have hcapture := h.capture (Or.inr hphase)
  have hreads : c.phase.reads = true := by rw [hphase]; rfl
  have hlive : c.phase.live = true := by rw [hphase]; rfl
  have hroom := fun hmk => (h.room hreads hmk).2 (by rw [hphase]; rfl)
  unfold StepsAlike act
  simp only [hphase, hcapture, hok.1]
  refine ⟨trivial, ?_⟩
  rcases beginPrefill_cases (e := e) { c with
      phase := .reduce
      prompt := e.compressTokens e.noCapture c.req.tokens
      result := { c.result with
        promptTokens := (e.compressTokens e.noCapture c.req.tokens).length } } with
    ⟨k, hmk, hb⟩ | hb | ⟨hmk, hempty, -⟩
  · rw [hb]
    refine h.proceed hreads hlive rfl ⟨rfl, by simp, by simp, by simp⟩ ?_ hearly
    exact fun hno => by simp [hmk] at hno
  · rw [hb]
    exact h.proceed hreads hlive rfl ⟨rfl, by simp, by simp, by simp⟩ (fun hmk _ => hroom hmk)
      hearly
  · rcases hok.2 with hyes | hsome
    · simp [hmk] at hyes
    · exact absurd hempty hsome

theorem extend_alike (hp : PoolOk e s.alloc) (h : Agree e seqId i s t c)
    (hs : (s.alloc.blockTables.lookup (seqId i)).isSome = true) {k : Nat}
    (hphase : c.phase = .extend k)
    (hok : s.alloc.freeList ≠ [] ∨ e.maxNumBlocks ≤ (s.alloc.tableOf (seqId i)).length) :
    StepsAlike e seqId i s t c := by
  have hreads : c.phase.reads = true := by rw [hphase]; rfl
  have hlive : c.phase.live = true := by rw [hphase]; rfl
  unfold StepsAlike act
  simp only [hphase]
  rcases extend_agree hp h hs hlive hok with
    ⟨hr, hr'⟩ | ⟨a, a', id, id', hr, hr', htab, htab', hpool, hother, hlook⟩
  · rw [hr, hr']
    exact ⟨rfl, h.retire hlive rfl⟩
  · rw [hr, hr']
    refine ⟨rfl, ?_⟩
    rcases afterExtend_cases (e := e) c k with ⟨k', hmk, hb⟩ | hb
    · rw [hb]
      refine h.grow hreads htab htab' hpool hother hlook ⟨rfl, rfl, by simp, by simp⟩ ?_
      exact fun _ => by rw [hphase, hmk]; rfl
    · rw [hb]
      refine h.grow hreads htab htab' hpool hother hlook ⟨rfl, rfl, by simp, by simp⟩ ?_
      exact fun he => by rw [hphase]; exact he

theorem decodeExtend_alike (hp : PoolOk e s.alloc) (h : Agree e seqId i s t c)
    (hs : (s.alloc.blockTables.lookup (seqId i)).isSome = true) (hphase : c.phase = .decodeExtend)
    (hok : s.alloc.freeList ≠ [] ∨ e.maxNumBlocks ≤ (s.alloc.tableOf (seqId i)).length) :
    StepsAlike e seqId i s t c := by
  have hreads : c.phase.reads = true := by rw [hphase]; rfl
  have hlive : c.phase.live = true := by rw [hphase]; rfl
  unfold StepsAlike act
  simp only [hphase]
  rcases extend_agree hp h hs hlive hok with
    ⟨hr, hr'⟩ | ⟨a, a', id, id', hr, hr', htab, htab', hpool, hother, hlook⟩
  · rw [hr, hr']
    exact ⟨rfl, h.retire hlive rfl⟩
  · rw [hr, hr']
    refine ⟨rfl, ?_⟩
    refine h.grow hreads htab htab' hpool hother hlook ⟨rfl, rfl, by simp, by simp⟩ ?_
    intro he
    cases he

theorem chunk_length_le (c : Call) (hmk : e.useMegakernel = false) : (c.chunk e).length ≤ 1 := by
  unfold Call.chunk
  rw [if_neg (by simp [hmk])]
  exact List.length_take_le 1 _

/-- Behind a position that the table covers and that is no block boundary, the next one is
    covered too. -/
theorem covered_of_mod {n len : Nat} (hle : n ≤ len * e.blockSize) (hmod : n % e.blockSize ≠ 0) :
    n < len * e.blockSize := by
  refine Nat.lt_of_le_of_ne hle ?_
  intro heq
  rw [heq, Nat.mul_mod_left] at hmod
  exact hmod rfl

/-- A megakernel pass over a prompt gives its positions the first slots. -/
theorem runForward_prompt (hmk : e.useMegakernel = true) {q : UInt64} {pass : Nat}
    {tokens : List Token} (h : runForward e i q pass s 0 tokens = .ok t) :
    ∃ out ∈ (e.forward [] tokens).toOption, t.codebook = s.codebook ∧
      ∀ x, (t.kv x).value = if x < tokens.length then out.1 x else (s.kv x).value := by
  unfold runForward at h
  rw [List.range_zero, List.map_nil] at h
  cases hout : e.forward [] tokens with
  | error ec =>
    rw [hout] at h
    cases h
  | ok out =>
    rw [hout] at h
    cases h
    refine ⟨out, rfl, rfl, ?_⟩
    intro x
    dsimp only
    rw [writeCells_zero _ (slotOf_megakernel hmk s.alloc q)]
    split
    · rfl
    · rfl

/-- The compression leaves the same cells in both. -/
theorem prefilled_agree (h : Agree e seqId i s t c) (hphase : c.phase = .prefill)
    (hok : e.useMegakernel = true → ∀ out ∈ (e.forward [] c.prompt).toOption,
      CompressedAlike e s c.prompt.length out.1)
    {s' t' : Device ι Cell Logits Capture Book} {pass : Nat}
    (hs : runForward e i (seqId i) pass s c.seqPos (c.chunk e) = .ok s')
    (ht : runForward e i (seqId i) pass t c.seqPos (c.chunk e) = .ok t')
    (hcells : ∀ p < c.seqPos + (c.chunk e).length,
      t'.kv (slotOf e t.alloc (seqId i) p) = s'.kv (slotOf e s.alloc (seqId i) p) ∧
        ∃ n, (s'.kv (slotOf e s.alloc (seqId i) p)).writer = some (i, n)) :
    ∀ p < c.seqPos + (c.chunk e).length,
      (t'.prefilled e c.prompt).kv (slotOf e t.alloc (seqId i) p) =
          (s'.prefilled e c.prompt).kv (slotOf e s.alloc (seqId i) p) ∧
        ∃ n, ((s'.prefilled e c.prompt).kv (slotOf e s.alloc (seqId i) p)).writer =
          some (i, n) := by
  cases hmk : e.useMegakernel with
  | false =>
    rw [prefilled_legacy hmk, prefilled_legacy hmk]
    exact hcells
  | true =>
    have hearly : c.phase.early e.useMegakernel = true := by rw [hphase, hmk]; rfl
    have hchunk : c.chunk e = c.prompt := if_pos hmk
    obtain ⟨hbook, hzero⟩ := h.blank hearly
    rw [h.early hearly, hchunk] at hs ht hcells ⊢
    obtain ⟨out, hout, hsbook, hsvalue⟩ := runForward_prompt hmk hs
    obtain ⟨out', hout', htbook, htvalue⟩ := runForward_prompt hmk ht
    obtain rfl : out' = out := Option.mem_unique hout' hout
    intro p hp
    obtain ⟨hsame, hown⟩ := hcells p hp
    rw [slotOf_megakernel hmk] at hsame hown ⊢
    rw [slotOf_megakernel hmk] at hsame ⊢
    rw [prefilled_kv hmk, prefilled_kv hmk, hsame, hsbook, htbook, hbook]
    refine ⟨?_, hown⟩
    have halike := hok hmk out' hout p (by omega)
    simp only [hsvalue, htvalue, hzero]
    rw [halike]

theorem prefill_alike (hp : PoolOk e s.alloc) (h : Agree e seqId i s t c)
    (hphase : c.phase = .prefill)
    (hok : e.useMegakernel = true → ∀ out ∈ (e.forward [] c.prompt).toOption,
      CompressedAlike e s c.prompt.length out.1) : StepsAlike e seqId i s t c := by
  have hreads : c.phase.reads = true := by rw [hphase]; rfl
  have hlive : c.phase.live = true := by rw [hphase]; rfl
  have hfit : e.useMegakernel = false →
      c.seqPos + (c.chunk e).length ≤ (s.alloc.tableOf (seqId i)).length * e.blockSize := by
    intro hmk
    have hlt := (h.room hreads hmk).2 (by rw [hphase]; rfl)
    have hone := chunk_length_le c hmk
    omega
  unfold StepsAlike act
  simp only [hphase]
  rcases forward_agree hp h hreads hfit (c.passes + 1) with
    ⟨ec, hr, hr'⟩ | ⟨s', t', hr, hr', hlogits, hpass⟩
  · rw [hr, hr']
    exact ⟨rfl, h.retire hlive rfl⟩
  · have hcells := prefilled_agree h hphase hok hr hr' hpass
    obtain ⟨hs, -, hwriter, -⟩ := runForward_ok hr
    obtain ⟨ht, -⟩ := runForward_ok hr'
    rw [← prefilled_alloc (e := e) c.prompt] at hs ht
    rw [← prefilled_logits (e := e) c.prompt] at hwriter
    rw [← prefilled_logits (e := e) (s := t') c.prompt,
      ← prefilled_logits (e := e) (s := s') c.prompt] at hlogits
    rw [hr, hr']
    refine ⟨rfl, ?_⟩
    rcases afterPrefill_cases (e := e) { c with
        phase := .prefill, passes := c.passes + 1, seqPos := c.seqPos + (c.chunk e).length } with
      hb | ⟨hmk, hb⟩ | ⟨hmk, hmod, hb⟩
    · rw [hb]
      refine h.filled hlive hs ht ⟨hlogits, hwriter⟩ hcells ⟨rfl, by simp, by simp⟩ ?_ rfl
      exact fun hno => ⟨hfit hno, fun hf => by cases hf⟩
    · rw [hb]
      refine h.filled hlive hs ht ⟨hlogits, hwriter⟩ hcells ⟨rfl, by simp, by simp⟩ ?_ ?_
      · exact fun hno => ⟨hfit hno, fun hf => by cases hf⟩
      · exact hmk
    · rw [hb]
      refine h.filled hlive hs ht ⟨hlogits, hwriter⟩ hcells ⟨rfl, by simp, by simp⟩ ?_ ?_
      · exact fun hno => ⟨hfit hno, fun _ => covered_of_mod (hfit hno) hmod⟩
      · exact hmk

theorem decode_alike (hp : PoolOk e s.alloc) (h : Agree e seqId i s t c)
    (hphase : c.phase = .decode) : StepsAlike e seqId i s t c := by
  have hreads : c.phase.reads = true := by rw [hphase]; rfl
  have hlive : c.phase.live = true := by rw [hphase]; rfl
  have hfit : e.useMegakernel = false →
      c.seqPos + [c.nextToken].length ≤ (s.alloc.tableOf (seqId i)).length * e.blockSize :=
    fun hmk => (h.room hreads hmk).2 (by rw [hphase]; rfl)
  unfold StepsAlike act
  simp only [hphase]
  rcases forward_agree hp h hreads hfit (c.passes + 1) with
    ⟨ec, hr, hr'⟩ | ⟨s', t', hr, hr', hlogits, hcells⟩
  · rw [hr, hr']
    exact ⟨rfl, h.retire hlive rfl⟩
  · obtain ⟨hs, -, hwriter, -⟩ := runForward_ok hr
    obtain ⟨ht, -⟩ := runForward_ok hr'
    rw [hr, hr']
    refine ⟨rfl, ?_⟩
    refine h.filled hlive hs ht ⟨hlogits, hwriter⟩ hcells ⟨rfl, by simp, by simp⟩ ?_ rfl
    exact fun hno => ⟨hfit hno, fun hf => by cases hf⟩

theorem sample_alike (h : Agree e seqId i s t c) (hphase : c.phase = .sample) :
    StepsAlike e seqId i s t c := by
  have hreads : c.phase.reads = true := by rw [hphase]; rfl
  have hlive : c.phase.live = true := by rw [hphase]; rfl
  unfold StepsAlike act
  simp only [hphase]
  rw [(h.logits hphase).1]
  refine ⟨rfl, ?_⟩
  obtain ⟨r, hb | hb | ⟨hmod, hb⟩⟩ := afterSample_cases (e := e) c (e.sampler s.logits.value)
  · rw [hb]
    exact h.retire hlive rfl
  · rw [hb]
    refine h.proceed hreads hlive rfl ⟨rfl, by simp, by simp, by simp⟩ ?_ ?_
    · intro _ hf
      cases hf
    · intro he
      cases he
  · rw [hb]
    refine h.proceed hreads hlive rfl ⟨rfl, by simp, by simp, by simp⟩ ?_ ?_
    · exact fun hmk _ => covered_of_mod (h.room hreads hmk).1 hmod
    · intro he
      cases he

theorem release_alike (hp : PoolOk e s.alloc) (h : Agree e seqId i s t c)
    (hphase : c.phase = .release) : StepsAlike e seqId i s t c := by
  obtain ⟨-, -, hlook⟩ := freeSequence_spec hp.exclusive (seqId i)
  obtain ⟨hex', hother', hlook'⟩ := freeSequence_spec h.pool.exclusive (seqId i)
  unfold StepsAlike act
  simp only [hphase]
  refine ⟨trivial, agree_returned (h.pool.move hex' hother') ?_ hlook hlook' rfl⟩
  intro q hq
  exact (hother'.tables q hq).trans (h.others q hq)

variable {w : Calls ι Cell Logits Capture Book}

theorem act_alike (hinv : Inv e seqId w) (hok : Undisturbed e seqId w i)
    (h : Agree e seqId i w.shared t (w.locals i)) :
    StepsAlike e seqId i w.shared t (w.locals i) := by
  have hlive := hinv.live i
  unfold Undisturbed at hok
  cases hphase : (w.locals i).phase with
  | allocate =>
    rw [hphase] at hok hlive
    exact allocate_alike hinv.pool h (by simpa [Phase.live] using hlive) hphase hok
  | reduce =>
    rw [hphase] at hok
    exact reduce_alike h hphase hok
  | extend k =>
    rw [hphase] at hok hlive
    exact extend_alike hinv.pool h hlive hphase hok
  | prefill =>
    rw [hphase] at hok
    exact prefill_alike hinv.pool h hphase hok.2
  | sample => exact sample_alike h hphase
  | decodeExtend =>
    rw [hphase] at hok hlive
    exact decodeExtend_alike hinv.pool h hlive hphase hok
  | decode => exact decode_alike hinv.pool h hphase
  | release => exact release_alike hinv.pool h hphase
  | returned =>
    unfold StepsAlike act
    simp only [hphase]
    exact ⟨trivial, h⟩

/-! ## A step keeps the agreement of the other calls -/

/-- Only a forward pass writes to the pool or the logits, and on the legacy path to the slots of
    its tokens. -/
theorem act_cells (e : Engine Cell Logits Capture Book) (seqId : ι → UInt64) (i : ι)
    (s : Device ι Cell Logits Capture Book) (c : Call) :
    ((act e seqId i s c).1.kv = s.kv ∧ (act e seqId i s c).1.logits = s.logits) ∨
      (c.phase.forwards = true ∧ (e.useMegakernel = false → ∃ new, (act e seqId i s c).1.kv =
        writeCells (slotOf e s.alloc (seqId i)) c.seqPos (c.forwardTokens e).length new s.kv)) := by
  unfold act Call.forwardTokens
  cases hphase : c.phase with
  | allocate =>
    dsimp only
    split
    · exact Or.inl ⟨rfl, rfl⟩
    · exact Or.inl ⟨rfl, rfl⟩
  | reduce => exact Or.inl ⟨rfl, rfl⟩
  | extend k =>
    dsimp only
    split
    · exact Or.inl ⟨rfl, rfl⟩
    · exact Or.inl ⟨rfl, rfl⟩
  | prefill =>
    dsimp only
    split
    · exact Or.inl ⟨rfl, rfl⟩
    · rename_i d hr
      obtain ⟨-, -, -, new, hkv⟩ := runForward_ok hr
      refine Or.inr ⟨rfl, fun hmk => ⟨new, ?_⟩⟩
      dsimp only
      rw [prefilled_legacy hmk]
      exact hkv
  | sample => exact Or.inl ⟨rfl, rfl⟩
  | decodeExtend =>
    dsimp only
    split
    · exact Or.inl ⟨rfl, rfl⟩
    · exact Or.inl ⟨rfl, rfl⟩
  | decode =>
    dsimp only
    split
    · exact Or.inl ⟨rfl, rfl⟩
    · rename_i d hr
      obtain ⟨-, -, -, new, hkv⟩ := runForward_ok hr
      exact Or.inr ⟨rfl, fun _ => ⟨new, hkv⟩⟩
  | release => exact Or.inl ⟨rfl, rfl⟩
  | returned => exact Or.inl ⟨rfl, rfl⟩

theorem Agree.frame (h : Agree e seqId i s t c) {s' : Device ι Cell Logits Capture Book}
    (htable : s'.alloc.tableOf (seqId i) = s.alloc.tableOf (seqId i))
    (hcells : c.phase.reads = true → ∀ p < c.seqPos,
      s'.kv (slotOf e s.alloc (seqId i) p) = s.kv (slotOf e s.alloc (seqId i) p))
    (hlogits : c.phase = .sample → s'.logits = s.logits) : Agree e seqId i s' t c where
  pool := h.pool
  others := h.others
  live := h.live
  length := by
    rw [htable]
    exact h.length
  room := by
    rw [htable]
    exact h.room
  cells := by
    intro hreads p hp
    rw [slotOf_congr htable, hcells hreads p hp]
    exact h.cells hreads p hp
  logits := by
    intro hs
    rw [hlogits hs]
    exact h.logits hs
  capture := h.capture
  early := h.early
  blank := h.blank

theorem early_of_not_exposed {ph : Phase} (hreads : ph.reads = true) (hs : ph ≠ .sample)
    (hd : ph ≠ .decodeExtend) (hf : ph ≠ .decode) : ph.early true = true := by
  cases ph with
  | allocate => rfl
  | reduce => rfl
  | extend k => rfl
  | prefill => rfl
  | sample => exact absurd rfl hs
  | decodeExtend => exact absurd rfl hd
  | decode => exact absurd rfl hf
  | release => cases hreads
  | returned => cases hreads

theorem fits_of_forwards {ph : Phase} (h : ph.forwards = true) :
    ph.reads = true ∧ ph.fits = true := by
  cases ph with
  | prefill => exact ⟨rfl, rfl⟩
  | decode => exact ⟨rfl, rfl⟩
  | allocate => cases h
  | reduce => cases h
  | extend k => cases h
  | sample => cases h
  | decodeExtend => cases h
  | release => cases h
  | returned => cases h

theorem forwardTokens_length_le (c : Call) (hmk : e.useMegakernel = false) :
    (c.forwardTokens e).length ≤ 1 := by
  unfold Call.forwardTokens
  split
  · exact chunk_length_le c hmk
  · exact le_refl 1

/-- On the megakernel path an unexposed call has no cells yet. -/
theorem Agree.unfilled (h : Agree e seqId i s t c) (hmk : e.useMegakernel = true)
    (hexposed : ¬ c.Exposed e) (hreads : c.phase.reads = true) : c.seqPos = 0 := by
  apply h.early
  rw [hmk]
  refine early_of_not_exposed hreads ?_ ?_ ?_
  · exact fun hs => hexposed (Or.inl hs)
  · exact fun hd => hexposed (Or.inr ⟨hmk, Or.inl hd⟩)
  · exact fun hf => hexposed (Or.inr ⟨hmk, Or.inr hf⟩)

/-- The slots of a forward pass and the filled slots of an unexposed call do not meet. -/
theorem slots_apart (hinj : Function.Injective seqId) (hinv : Inv e seqId w) {j : ι} (hj : j ≠ i)
    {u : Device ι Cell Logits Capture Book} (hi : Agree e seqId i w.shared t (w.locals i))
    (hother : Agree e seqId j w.shared u (w.locals j))
    (hforwards : (w.locals i).phase.forwards = true) (hexposed : ¬ (w.locals j).Exposed e)
    (hreads : (w.locals j).phase.reads = true) :
    ∀ p < (w.locals j).seqPos, ∀ k < ((w.locals i).forwardTokens e).length,
      slotOf e w.shared.alloc (seqId i) ((w.locals i).seqPos + k) ≠
        slotOf e w.shared.alloc (seqId j) p := by
  intro p hp k hk
  cases hmk : e.useMegakernel with
  | true =>
    have hzero := hother.unfilled hmk hexposed hreads
    omega
  | false =>
    obtain ⟨hreadsi, hfits⟩ := fits_of_forwards hforwards
    have hlt := (hi.room hreadsi hmk).2 hfits
    have hle := (hother.room hreads hmk).1
    have hone := forwardTokens_length_le (w.locals i) hmk
    refine slotOf_apart hinv.pool.exclusive hmk (fun heq => hj (hinj heq)) ?_ ?_
    · omega
    · omega

theorem forward_ok (hok : Undisturbed e seqId w i) (h : (w.locals i).phase.forwards = true) :
    ∀ j, j ≠ i → ¬ (w.locals j).Exposed e := by
  unfold Undisturbed at hok
  cases hphase : (w.locals i).phase with
  | prefill =>
    rw [hphase] at hok
    exact hok.1
  | decode =>
    rw [hphase] at hok
    exact hok
  | allocate => simp [hphase, Phase.forwards] at h
  | reduce => simp [hphase, Phase.forwards] at h
  | extend k => simp [hphase, Phase.forwards] at h
  | sample => simp [hphase, Phase.forwards] at h
  | decodeExtend => simp [hphase, Phase.forwards] at h
  | release => simp [hphase, Phase.forwards] at h
  | returned => simp [hphase, Phase.forwards] at h

theorem agree_other (hinj : Function.Injective seqId) (hinv : Inv e seqId w)
    (hok : Undisturbed e seqId w i) {j : ι} (hj : j ≠ i) {u : Device ι Cell Logits Capture Book}
    (hi : Agree e seqId i w.shared t (w.locals i))
    (h : Agree e seqId j w.shared u (w.locals j)) :
    Agree e seqId j (act e seqId i w.shared (w.locals i)).1 u (w.locals j) := by
  have htables := (act_pool hinv.pool (hinv.live i)).2.1.tables (seqId j) fun heq => hj (hinj heq)
  have htable : (act e seqId i w.shared (w.locals i)).1.alloc.tableOf (seqId j) =
      w.shared.alloc.tableOf (seqId j) := by
    unfold tableOf
    rw [htables]
  rcases act_cells e seqId i w.shared (w.locals i) with ⟨hkv, hlogits⟩ | ⟨hforwards, hkv⟩
  · exact h.frame htable (fun _ p _ => by rw [hkv]) fun _ => hlogits
  · have hexposed := forward_ok hok hforwards j hj
    refine h.frame htable ?_ fun hs => absurd (Or.inl hs) hexposed
    intro hreads p hp
    cases hmk : e.useMegakernel with
    | true =>
      rw [h.unfilled hmk hexposed hreads] at hp
      cases hp
    | false =>
      obtain ⟨new, hnew⟩ := hkv hmk
      rw [hnew]
      exact writeCells_other (slots_apart hinj hinv hj hi h hforwards hexposed hreads p hp) _

/-! ## Runs -/

variable [DecidableEq ι]

theorem inv_next (hinj : Function.Injective seqId) (hinv : Inv e seqId w) (i : ι) :
    Inv e seqId (w.next (act e seqId) i) := by
  obtain ⟨hpool, hother, hlive⟩ := act_pool hinv.pool (hinv.live i)
  refine ⟨hpool, ?_⟩
  intro j
  by_cases hj : j = i
  · subst hj
    simpa [Threads.next] using hlive
  · have htable := hother.tables (seqId j) fun heq => hj (hinj heq)
    simpa [Threads.next, hj, htable] using hinv.live j

theorem unwinding (e : Engine Cell Logits Capture Book) (hinj : Function.Injective seqId) :
    Threads.Unwinding (act e seqId) (Inv e seqId) (Undisturbed e seqId) (Agree e seqId) := by
  refine ⟨?_, ?_, ?_⟩
  · exact fun w i hinv _ _ => inv_next hinj hinv i
  · exact fun w i t hinv hok h => act_alike hinv hok h
  · exact fun w i j t hinv hok hj hi u h => agree_other hinj hinv hok hj hi h

omit [DecidableEq ι] in
theorem isolated_of_agree (hinj : Function.Injective seqId) (hinv : Inv e seqId w)
    (hall : ∀ j, ∃ t, Agree e seqId j w.shared t (w.locals j)) (hok : Undisturbed e seqId w i) :
    Isolated e seqId w i := by
  obtain ⟨t, hi⟩ := hall i
  have hforward : (w.locals i).phase.forwards = true →
      (∀ p < (w.locals i).seqPos,
        ∃ n, (w.shared.kv (slotOf e w.shared.alloc (seqId i) p)).writer = some (i, n)) ∧
      ∀ j, j ≠ i → (w.locals j).phase.reads = true →
        (e.useMegakernel = true → (w.locals j).seqPos = 0) ∧
          ∀ p < (w.locals j).seqPos, ∀ k < ((w.locals i).forwardTokens e).length,
            slotOf e w.shared.alloc (seqId i) ((w.locals i).seqPos + k) ≠
              slotOf e w.shared.alloc (seqId j) p := by
    intro hf
    refine ⟨fun p hp => (hi.cells (fits_of_forwards hf).1 p hp).2, ?_⟩
    intro j hj hreads
    obtain ⟨u, hother⟩ := hall j
    have hexposed := forward_ok hok hf j hj
    exact ⟨fun hmk => hother.unfilled hmk hexposed hreads,
      slots_apart hinj hinv hj hi hother hf hexposed hreads⟩
  unfold Isolated
  cases hphase : (w.locals i).phase with
  | prefill => exact hforward (by rw [hphase]; rfl)
  | decode => exact hforward (by rw [hphase]; rfl)
  | sample => exact (hi.logits hphase).2
  | allocate => trivial
  | reduce => trivial
  | extend k => trivial
  | decodeExtend => trivial
  | release => trivial
  | returned => trivial

/-- The calls for a family of requests, none of them begun. -/
def issued (reqs : ι → GenerateRequest) (i : ι) : Call where
  req := reqs i

/-- No call of the run notices the others: each is always where it would be alone, and every
    forward pass and sampling is isolated. -/
def CallsSeparate (e : Engine Cell Logits Capture Book) (seqId : ι → UInt64)
    (reqs : ι → GenerateRequest) (is : List ι) : Prop :=
  AllStates (Threads.step (act e seqId))
      (Threads.AsAlone (act e seqId) (e.newDevice ι) (issued reqs))
      (Threads.start (e.newDevice ι) (issued reqs)) is ∧
    AllSteps (Threads.step (act e seqId)) (Isolated e seqId)
      (Threads.start (e.newDevice ι) (issued reqs)) is

theorem callsSeparate (e : Engine Cell Logits Capture Book) (hinj : Function.Injective seqId)
    (reqs : ι → GenerateRequest) {is : List ι}
    (hok : AllSteps (Threads.step (act e seqId)) (Undisturbed e seqId)
      (Threads.start (e.newDevice ι) (issued reqs)) is) : CallsSeparate e seqId reqs is := by
  have hnone : ∀ q, (e.newDevice ι).alloc.blockTables.lookup q = none := fun _ => rfl
  have hpool : PoolOk e (e.newDevice ι).alloc := ⟨exclusive_init _ _ _, rfl, rfl⟩
  have hstart : Threads.Follows (act e seqId) (Inv e seqId) (Agree e seqId) (e.newDevice ι)
      (issued reqs) (Threads.start (e.newDevice ι) (issued reqs)) := by
    refine ⟨⟨hpool, fun _ => rfl⟩, ?_⟩
    intro j
    refine ⟨rfl, hpool, fun q _ => hnone q, rfl, rfl, ?_, ?_, ?_, fun _ => rfl, fun _ => rfl,
      fun _ => ⟨rfl, fun _ => rfl⟩⟩
    · intro hreads
      cases hreads
    · intro hreads
      cases hreads
    · intro hs
      cases hs
  refine ⟨(unwinding e hinj).asAlone hstart hok, ?_⟩
  exact (unwinding e hinj).allSteps hstart hok fun w i hinv hall hi =>
    isolated_of_agree hinj hinv hall hi

end TruellmEngine.Cuda
