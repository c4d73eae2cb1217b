/-
  What a refused `inject_tokens` leaves behind.

  The blocks behind the appended tokens are reserved one by one, before the forward pass, and
  no return gives them back. `reserve_eq` says what the loop reserves as a whole: a block for
  each block boundary among the new positions, or the rest of the pool. `atomic_iff` has the
  states from which no refused call keeps one.
-/
import TruellmEngine.Cuda.Injection

namespace TruellmEngine.Cuda.Live

open Lib

variable {Cell Logits Capture Book : Type*}

/-- The block boundaries among `n` positions from `p` on. -/
def boundaries (blockSize p n : Nat) : Nat :=
  (List.range' p n).countP fun q => decide (0 < q ∧ q % blockSize = 0)

theorem boundaries_zero (blockSize p : Nat) : boundaries blockSize p 0 = 0 := rfl

theorem boundaries_succ_of {blockSize p : Nat} (h : 0 < p ∧ p % blockSize = 0) (n : Nat) :
    boundaries blockSize p (n + 1) = boundaries blockSize (p + 1) n + 1 := by
  unfold boundaries
  rw [List.range'_succ, List.countP_cons_of_pos]
  exact decide_eq_true h

theorem boundaries_succ_of_not {blockSize p : Nat} (h : ¬ (0 < p ∧ p % blockSize = 0)) (n : Nat) :
    boundaries blockSize p (n + 1) = boundaries blockSize (p + 1) n := by
  unfold boundaries
  rw [List.range'_succ, List.countP_cons_of_neg]
  rw [decide_eq_false h]
  exact Bool.false_ne_true

variable (e : Engine Cell Logits Capture Book) (seqId : UInt64)

/-! ## The reservation -/

theorem extendSequence_pop {a : Allocator Unit} {bt rest : List Nat} {id : Nat}
    (hbt : a.blockTables.lookup seqId = some bt) (hfree : a.freeList = id :: rest) :
    ∃ a', a.extendSequence seqId = (some id, a') ∧
      a'.blockTables.lookup seqId = some (bt ++ [id]) ∧ a'.freeList = rest := by
  unfold Allocator.extendSequence Allocator.allocBlockLocked
  rw [hbt, hfree]
  exact ⟨_, rfl, AList.lookup_insert _, rfl⟩

theorem extendSequence_empty {a : Allocator Unit} (hfree : a.freeList = []) :
    a.extendSequence seqId = (none, a) := by
  unfold Allocator.extendSequence Allocator.allocBlockLocked
  rw [hfree]
  cases a.blockTables.lookup seqId with
  | none => rfl
  | some bt => rfl

theorem extendSequence_unknown {a : Allocator Unit} (h : a.blockTables.lookup seqId = none) :
    a.extendSequence seqId = (none, a) := by
  unfold Allocator.extendSequence
  rw [h]

/-- The loop puts a block behind the table at each boundary, while the pool has one. -/
theorem reserve_eq {a : Allocator Unit} {bt : List Nat}
    (hbt : a.blockTables.lookup seqId = some bt) (p n : Nat) :
    (reserve e seqId a p n).1 = decide (boundaries e.blockSize p n ≤ a.freeList.length) ∧
      (reserve e seqId a p n).2.blockTables.lookup seqId =
        some (bt ++ a.freeList.take (boundaries e.blockSize p n)) := by
  induction n generalizing a bt p with
  | zero =>
    rw [boundaries_zero, List.take_zero, List.append_nil]
    exact ⟨(decide_eq_true (Nat.zero_le _)).symm, hbt⟩
  | succ n ih =>
    unfold reserve
    by_cases hp : 0 < p ∧ p % e.blockSize = 0
    · rw [if_pos hp, boundaries_succ_of hp]
      cases hfree : a.freeList with
      | nil =>
        rw [extendSequence_empty seqId hfree, List.take_nil, List.append_nil]
        exact ⟨(decide_eq_false (Nat.not_succ_le_zero _)).symm, hbt⟩
      | cons id rest =>
        obtain ⟨a', hext, hbt', hfree'⟩ := extendSequence_pop seqId hbt hfree
        obtain ⟨hdone, htable⟩ := ih hbt' (p + 1)
        rw [hext]
        rw [hfree'] at hdone htable
        refine ⟨?_, ?_⟩
        · rw [hdone, List.length_cons, decide_eq_decide]
          exact Nat.succ_le_succ_iff.symm
        · rw [htable, List.take_succ_cons, List.append_assoc]
          rfl
    · rw [if_neg hp, boundaries_succ_of_not hp]
      exact ih hbt (p + 1)

/-- A sequence without a table gets no blocks. -/
theorem reserve_unknown {a : Allocator Unit} (h : a.blockTables.lookup seqId = none) (p n : Nat) :
    (reserve e seqId a p n).2 = a := by
  induction n generalizing p with
  | zero => rfl
  | succ n ih =>
    unfold reserve
    split
    · rw [extendSequence_unknown seqId h]
    · exact ih (p + 1)

/-- The table is as before exactly if there was no boundary or nothing to get. -/
theorem reserve_keeps_iff (a : Allocator Unit) (p n : Nat) :
    (reserve e seqId a p n).2.blockTables.lookup seqId = a.blockTables.lookup seqId ↔
      boundaries e.blockSize p n = 0 ∨ a.blockTables.lookup seqId = none ∨ a.freeList = [] := by
  cases hbt : a.blockTables.lookup seqId with
  | none =>
    rw [reserve_unknown e seqId hbt]
    exact iff_of_true hbt (.inr (.inl rfl))
  | some bt =>
    rw [(reserve_eq e seqId hbt p n).2, Option.some_inj, List.append_right_eq_self,
      List.take_eq_nil_iff]
    simp

/-! ## The call -/

/-- `inject_tokens`, on an engine with or without a model. -/
def injectTokensIn (loaded : Bool) (s : Live Cell Logits Capture Book) (pos : Int)
    (tokens : List Token) : Except (ErrorCode × Live Cell Logits Capture Book)
      (Live Cell Logits Capture Book) :=
  if tokens = [] then .error (.invalidArgument, s)
  else if !loaded then .error (.unavailable, s)
  else s.injectTokens e seqId pos tokens

/-- A refused call leaves the block table of the sequence and its registered length. -/
def Atomic (s : Live Cell Logits Capture Book)
    (r : Except (ErrorCode × Live Cell Logits Capture Book) (Live Cell Logits Capture Book)) :
    Prop :=
  ∀ ec t, r = .error (ec, t) →
    t.device.alloc.blockTables.lookup seqId = s.device.alloc.blockTables.lookup seqId ∧
      t.session = s.session

/-- A call that gets as far as the reservation finds no boundary, no table or no free block,
    or else enough blocks for all boundaries and a forward pass that succeeds. -/
def NothingKept (loaded : Bool) (s : Live Cell Logits Capture Book) (pos : Int)
    (tokens : List Token) : Prop :=
  ∀ len : Nat, tokens ≠ [] → loaded = true → e.useMegakernel = true → s.session = some len →
    pos = len →
    (boundaries e.blockSize len tokens.length = 0 ∨
      s.device.alloc.blockTables.lookup seqId = none ∨ s.device.alloc.freeList = []) ∨
    boundaries e.blockSize len tokens.length ≤ s.device.alloc.freeList.length ∧
      ∃ out, e.forward ((List.range len).map fun p => (s.device.kv p).value) tokens = .ok out

/-- A megakernel pass succeeds or not whatever the block tables are. -/
theorem runForward_megakernel {e : Engine Cell Logits Capture Book} (hmk : e.useMegakernel = true)
    (pass : Nat) (d : Device Unit Cell Logits Capture Book) (a : Allocator Unit) (pos : Nat)
    (tokens : List Token) :
    (∃ d', runForward e () seqId pass { d with alloc := a } pos tokens = .ok d') ↔
      ∃ out, e.forward ((List.range pos).map fun p => (d.kv p).value) tokens = .ok out := by
  have hslot : ∀ p, slotOf e a seqId p = p := fun p => if_pos hmk
  unfold runForward
  dsimp only
  simp only [hslot]
  cases e.forward ((List.range pos).map fun p => (d.kv p).value) tokens with
  | error ec => exact iff_of_false (fun ⟨_, h⟩ => nomatch h) (fun ⟨_, h⟩ => nomatch h)
  | ok out => exact iff_of_true ⟨_, rfl⟩ ⟨_, rfl⟩

/-- Once its arguments are accepted, the call is refused where the blocks do not suffice or
    the forward pass fails, and has the blocks of the reservation in either case. -/
theorem refused_iff {e : Engine Cell Logits Capture Book}
    {s t : Live Cell Logits Capture Book} {len : Nat} {tokens : List Token}
    (htokens : tokens ≠ []) (hmk : e.useMegakernel = true) (hsession : s.session = some len) :
    (∃ ec, s.injectTokensIn e seqId true len tokens = .error (ec, t)) ↔
      t = { s with device := { s.device with
        alloc := (reserve e seqId s.device.alloc len tokens.length).2 } } ∧
      ((reserve e seqId s.device.alloc len tokens.length).1 = false ∨
        ¬ ∃ out, e.forward ((List.range len).map fun p => (s.device.kv p).value) tokens =
          .ok out) := by
  have hforward := runForward_megakernel seqId hmk s.call.passes s.device
    (reserve e seqId s.device.alloc len tokens.length).2 len tokens
  unfold injectTokensIn injectTokens
  rw [if_neg htokens, if_neg (by decide), if_neg htokens, if_neg (by simp [hmk]), hsession]
  dsimp only
  rw [if_neg (by simp), ← hforward]
  split
  · rename_i hreserved
    constructor
    · rintro ⟨ec, h⟩
      cases h
      exact ⟨rfl, .inl hreserved⟩
    · rintro ⟨rfl, -⟩
      exact ⟨_, rfl⟩
  · rename_i hreserved
    split
    · rename_i ec hfailed
      constructor
      · rintro ⟨ec', h⟩
        cases h
        exact ⟨rfl, .inr fun ⟨d, hd⟩ => by rw [hfailed] at hd; cases hd⟩
      · rintro ⟨rfl, -⟩
        exact ⟨_, rfl⟩
    · rename_i d hd
      constructor
      · rintro ⟨ec, h⟩
        cases h
      · rintro ⟨-, h⟩
        rcases h with h | h
        · exact absurd h hreserved
        · exact absurd ⟨d, hd⟩ h

/-- A call that is refused for its arguments changes nothing. -/
theorem refused_early {e : Engine Cell Logits Capture Book} {loaded : Bool}
    {s t : Live Cell Logits Capture Book} {pos : Int} {tokens : List Token} {ec : ErrorCode}
    (hearly : ¬ ∃ len : Nat, tokens ≠ [] ∧ loaded = true ∧ e.useMegakernel = true ∧
      s.session = some len ∧ pos = len)
    (h : s.injectTokensIn e seqId loaded pos tokens = .error (ec, t)) : t = s := by
  unfold injectTokensIn injectTokens at h
  split at h
  · cases h
    rfl
  rename_i htokens
  split at h
  · cases h
    rfl
  rename_i hloaded
  split at h
  · cases h
    rfl
  rename_i hmk
  split at h
  · cases h
    rfl
  rename_i len hsession
  split at h
  · cases h
    rfl
  rename_i hpos
  exact absurd ⟨len, htokens, by simpa using hloaded, by simpa using hmk, hsession,
    not_not.mp hpos⟩ hearly

/-- A refused call leaves the sequence as it was exactly from those states in which its
    reservation keeps nothing. -/
theorem atomic_iff (loaded : Bool) (s : Live Cell Logits Capture Book) (pos : Int)
    (tokens : List Token) :
    Atomic seqId s (s.injectTokensIn e seqId loaded pos tokens) ↔
      NothingKept e seqId loaded s pos tokens := by
  by_cases haccepted : ∃ len : Nat, tokens ≠ [] ∧ loaded = true ∧ e.useMegakernel = true ∧
      s.session = some len ∧ pos = len
  · obtain ⟨len, htokens, rfl, hmk, hsession, rfl⟩ := haccepted
    have hkeeps := reserve_keeps_iff e seqId s.device.alloc len tokens.length
    constructor
    · intro hatomic len' _ _ _ hsession' _
      cases hsession.symm.trans hsession'
      by_contra hkept
      rw [not_or, not_and_or, ← hkeeps] at hkept
      have hrefused : (reserve e seqId s.device.alloc len tokens.length).1 = false ∨
          ¬ ∃ out, e.forward ((List.range len).map fun p => (s.device.kv p).value) tokens =
            .ok out := by
        refine hkept.2.imp_left fun hshort => ?_
        cases hbt : s.device.alloc.blockTables.lookup seqId with
        | none => exact absurd (hkeeps.mpr (.inr (.inl hbt))) hkept.1
        | some bt =>
          rw [(reserve_eq e seqId hbt len tokens.length).1]
          exact decide_eq_false hshort
      obtain ⟨ec, h⟩ := (refused_iff seqId htokens hmk hsession).mpr ⟨rfl, hrefused⟩
      exact hkept.1 (hatomic ec _ h).1
    · intro hkept ec t h
      obtain ⟨rfl, hrefused⟩ := (refused_iff seqId htokens hmk hsession).mp ⟨ec, h⟩
      refine ⟨hkeeps.mpr ?_, rfl⟩
      rcases hkept len htokens rfl hmk hsession rfl with hnothing | ⟨henough, hforward⟩
      · exact hnothing
      · refine .inr (.inl ?_)
        cases hbt : s.device.alloc.blockTables.lookup seqId with
        | none => rfl
        | some bt =>
          rw [(reserve_eq e seqId hbt len tokens.length).1] at hrefused
          rcases hrefused with hshort | hfails
          · exact absurd henough (of_decide_eq_false hshort)
          · exact absurd hforward hfails
  · refine iff_of_true ?_ ?_
    · intro ec t h
      rw [refused_early seqId haccepted h]
      exact ⟨rfl, rfl⟩
    · intro len htokens hloaded hmk hsession hpos
      exact absurd ⟨len, htokens, hloaded, hmk, hsession, hpos⟩ haccepted

/-- An engine with two blocks of two tokens. -/
def twoBlocks : Engine Unit Unit Unit Unit :=
  { blank with blockSize := 2, blockSize_pos := Nat.two_pos, maxNumBlocks := 2 }

/-- Behind the prompt of two tokens, an injection of three is refused and keeps the one block
    that was left: the decode loop then finds none. -/
theorem injection_keeps_block :
    ∃ s, run (step twoBlocks 0) (start (twoBlocks.newDevice Unit) shortRequest)
        (List.replicate 4 .generate) = some s ∧
      ¬ Atomic 0 s (s.injectTokensIn twoBlocks 0 true 2 [5, 6, 7]) := by
  refine ⟨_, rfl, fun h => ?_⟩
  have htable := (h .unavailable _ rfl).1
  exact absurd htable (by decide)

end TruellmEngine.Cuda.Live
