/-
  How many blocks a call of `CudaEngine::generate` has at each forward pass.

  `allocate_sequence` reserves blocks for the whole prompt, before its reduction. The prefill
  loops and the decode loop take one more at every block boundary, whether it is reserved or
  not. `Counted` is the number of blocks in each phase, `countsExactly_iff` says when it is
  the number that the tokens need.
-/
import TruellmEngine.Cuda.CallsIsolated

namespace TruellmEngine.Cuda

open Lib Allocator

variable {ι Cell Logits Capture Book : Type*} (e : Engine Cell Logits Capture Book)
  (seqId : ι → UInt64)

/-- `(n + block_size - 1) / block_size`, and at least 1. -/
def Engine.blocksFor (n : Nat) : Nat := max ((n + e.blockSize - 1) / e.blockSize) 1

/-- The tokens in the cache once the next forward pass of the call is done. -/
def Call.nextLen (c : Call) : Nat :=
  match c.phase with
  | .prefill | .decode => c.seqPos + (c.forwardTokens e).length
  | .extend _ => if e.useMegakernel then c.prompt.length else c.seqPos + 1
  | .decodeExtend => c.seqPos + 1
  | _ => 0

/-- The blocks for the prompt, or for the tokens of the next pass where they are more. -/
def Call.needed (c : Call) : Nat := e.blocksFor (max c.req.tokens.length (c.nextLen e))

/-- The next step of the call finds no block. -/
def Refused (i : ι) (a : Allocator Unit) (c : Call) : Prop :=
  match c.phase with
  | .allocate => (a.allocateSequence (seqId i) c.req.tokens.length).1 = false
  | .extend _ | .decodeExtend => (a.extendSequence (seqId i)).1 = none
  | _ => False

/-- At a forward pass the call has the blocks that it needs and no other. It is refused a
    block only when its own and the free ones are too few for the next pass. -/
def CountsExactly (i : ι) (a : Allocator Unit) (c : Call) : Prop :=
  (c.phase.forwards = true → (a.tableOf (seqId i)).length = c.needed e) ∧
    (Refused seqId i a c → (a.tableOf (seqId i)).length + a.freeList.length < c.needed e)

/-- No block is counted twice: the prompt of the request has one block, or no boundary was
    passed yet, and the reduced prompt is not empty. Before the one prefill pass of the
    megakernel the blocks of the reduced prompt may make up for those of the request. -/
def Call.CountsOnce (c : Call) : Prop :=
  match c.phase with
  | .prefill => c.req.tokens.length ≤ e.blockSize ∨ c.nextLen e ≤ e.blockSize
  | .decode =>
    (c.req.tokens.length ≤ e.blockSize ∨ c.nextLen e ≤ e.blockSize) ∧ c.prompt ≠ []
  | .extend k => e.blocksFor c.req.tokens.length + k / e.blockSize ≤ e.blocksFor (c.nextLen e)
  | .decodeExtend => c.req.tokens.length ≤ e.blockSize ∧ c.prompt ≠ []
  | _ => True

variable {e seqId}

/-! ## Rounding up -/

theorem blocksFor_eq (n : Nat) : e.blocksFor n = (n - 1) / e.blockSize + 1 := by
  have hpos := e.blockSize_pos
  unfold Engine.blocksFor
  rcases Nat.eq_zero_or_pos n with rfl | hn
  · rw [Nat.zero_add, Nat.div_eq_of_lt (by omega), Nat.zero_sub, Nat.zero_div]
    rfl
  · have hsum : n + e.blockSize - 1 = n - 1 + e.blockSize := by omega
    rw [hsum, Nat.add_div_right _ hpos]
    exact max_eq_left (Nat.succ_le_succ (Nat.zero_le _))

theorem blocksFor_pos (n : Nat) : 0 < e.blocksFor n :=
  Nat.lt_of_lt_of_le Nat.one_pos (le_max_right _ _)

theorem blocksFor_max (m n : Nat) :
    e.blocksFor (max m n) = max ((m - 1) / e.blockSize) ((n - 1) / e.blockSize) + 1 := by
  rw [blocksFor_eq]
  rcases Nat.le_total m n with h | h
  · rw [max_eq_right h, max_eq_right (Nat.div_le_div_right (Nat.sub_le_sub_right h 1))]
  · rw [max_eq_left h, max_eq_left (Nat.div_le_div_right (Nat.sub_le_sub_right h 1))]

/-- One block is enough. -/
theorem oneBlock_iff {n : Nat} : n ≤ e.blockSize ↔ (n - 1) / e.blockSize = 0 := by
  have hpos := e.blockSize_pos
  rw [Nat.div_eq_zero_iff_lt hpos]
  omega

theorem pred_div_mul {m b : Nat} (hb : 0 < b) (hm : 0 < m) : (m * b - 1) / b = m - 1 := by
  obtain ⟨k, rfl⟩ : ∃ k, m = k + 1 := Nat.exists_eq_succ_of_ne_zero hm.ne'
  have hsplit : (k + 1) * b - 1 = b * k + (b - 1) := by
    rw [Nat.add_mul, Nat.one_mul, Nat.mul_comm]
    omega
  have hrest : (b - 1) / b = 0 := Nat.div_eq_of_lt (Nat.sub_lt hb Nat.one_pos)
  rw [hsplit, Nat.mul_add_div hb, hrest]
  rfl

/-- Between two boundaries the quotient stays. -/
theorem pred_div_of_mod {n b : Nat} (hb : 0 < b) (hn : n % b ≠ 0) : (n - 1) / b = n / b := by
  have hmod := Nat.div_add_mod n b
  have hlt := Nat.mod_lt n hb
  have hsplit : n - 1 = b * (n / b) + (n % b - 1) := by omega
  have hrest : (n % b - 1) / b = 0 := Nat.div_eq_of_lt (by omega)
  rw [hsplit, Nat.mul_add_div hb, hrest, Nat.add_zero]

theorem promptBlocks_eq {a : Allocator Unit} (hsize : a.blockSize = e.blockSize) (n : Nat) :
    a.promptBlocks n = e.blocksFor n := by
  have hpos := e.blockSize_pos
  have hsum : (n : Int) + e.blockSize - 1 = ((n + e.blockSize - 1 : Nat) : Int) := by omega
  unfold promptBlocks Engine.blocksFor
  rw [hsize, hsum, ← Int.ofNat_tdiv]
  omega

/-! ## The count of each phase -/

/-- The block that an empty prompt is given at position 0. -/
def Call.extra (c : Call) : Nat := if c.prompt = [] ∧ 0 < c.seqPos then 1 else 0

/-- The number of blocks of a call, by phase. -/
def Counted (e : Engine Cell Logits Capture Book) (n : Nat) (c : Call) : Prop :=
  match c.phase with
  | .allocate => c.seqPos = 0
  | .reduce => n = e.blocksFor c.req.tokens.length ∧ c.seqPos = 0
  | .extend k =>
    (∃ m, 0 < m ∧ k = m * e.blockSize ∧ n + 1 = e.blocksFor c.req.tokens.length + m) ∧
      k < c.prompt.length ∧ if e.useMegakernel then c.seqPos = 0 else c.seqPos = k
  | .prefill =>
    n = e.blocksFor c.req.tokens.length + (c.nextLen e - 1) / e.blockSize ∧
      if e.useMegakernel then c.seqPos = 0 else c.seqPos < c.prompt.length
  | .sample =>
    n = e.blocksFor c.req.tokens.length + (c.seqPos - 1) / e.blockSize + c.extra ∧
      (c.prompt ≠ [] → 0 < c.seqPos)
  | .decodeExtend =>
    n = e.blocksFor c.req.tokens.length + (c.seqPos - 1) / e.blockSize + c.extra ∧
      (c.prompt ≠ [] → 0 < c.seqPos) ∧ c.seqPos % e.blockSize = 0
  | .decode =>
    n = e.blocksFor c.req.tokens.length + c.seqPos / e.blockSize +
        (if c.prompt = [] then 1 else 0) ∧
      (c.prompt ≠ [] → 0 < c.seqPos)
  | .release => True
  | .returned => True

/-- The megakernel takes the whole prompt in one pass. -/
theorem nextLen_megakernel {c : Call} (hmk : e.useMegakernel = true) (hphase : c.phase = .prefill)
    (hpos : c.seqPos = 0) : c.nextLen e = c.prompt.length := by
  simp [Call.nextLen, Call.forwardTokens, Call.chunk, hmk, hpos, hphase]

/-- The legacy path takes one token a pass. -/
theorem nextLen_legacy {c : Call} (hmk : e.useMegakernel = false) (hphase : c.phase = .prefill)
    (hlt : c.seqPos < c.prompt.length) : c.nextLen e = c.seqPos + 1 := by
  have hone : ((c.prompt.drop c.seqPos).take 1).length = 1 := by
    rw [List.length_take, List.length_drop]
    omega
  simp only [Call.nextLen, Call.forwardTokens, Call.chunk, hmk, hphase, hone, if_true,
    Bool.false_eq_true, if_false]

theorem counted_prefill_megakernel {n : Nat} {c : Call} (hmk : e.useMegakernel = true)
    (hpos : c.seqPos = 0)
    (hn : n = e.blocksFor c.req.tokens.length + (c.prompt.length - 1) / e.blockSize) :
    Counted e n { c with phase := .prefill } := by
  have hlen := nextLen_megakernel (c := { c with phase := .prefill }) hmk rfl hpos
  refine ⟨?_, by rw [if_pos hmk]; exact hpos⟩
  rw [hlen]
  exact hn

theorem counted_prefill_legacy {n : Nat} {c : Call} (hmk : e.useMegakernel = false)
    (hlt : c.seqPos < c.prompt.length)
    (hn : n = e.blocksFor c.req.tokens.length + c.seqPos / e.blockSize) :
    Counted e n { c with phase := .prefill } := by
  have hlen := nextLen_legacy (c := { c with phase := .prefill }) hmk rfl hlt
  refine ⟨?_, by rw [hmk, if_neg Bool.false_ne_true]; exact hlt⟩
  rw [hlen]
  exact hn

theorem counted_beginPrefill {n : Nat} {c : Call}
    (hn : n = e.blocksFor c.req.tokens.length) (hpos : c.seqPos = 0) :
    Counted e n (c.beginPrefill e) := by
  have hsize := e.blockSize_pos
  unfold Call.beginPrefill
  cases hmk : e.useMegakernel with
  | true =>
    rw [if_pos rfl]
    split
    · rename_i hlong
      refine ⟨⟨1, Nat.one_pos, (Nat.one_mul _).symm, by rw [hn]⟩, hlong, ?_⟩
      rw [if_pos hmk]
      exact hpos
    · rename_i hshort
      apply counted_prefill_megakernel hmk hpos
      rw [oneBlock_iff.mp (Nat.le_of_not_lt hshort), hn]
      rfl
  | false =>
    rw [if_neg Bool.false_ne_true]
    split
    · rename_i hempty
      refine ⟨?_, fun hne => absurd hempty hne⟩
      simp [Call.extra, hpos, hn]
    · rename_i hne
      have hlt : c.seqPos < c.prompt.length := by
        rw [hpos]
        exact List.length_pos_of_ne_nil hne
      apply counted_prefill_legacy hmk hlt
      rw [hpos, Nat.zero_div, hn]
      rfl

theorem counted_afterExtend {n k : Nat} {c : Call} (hphase : c.phase = .extend k)
    (h : Counted e n c) : Counted e (n + 1) (c.afterExtend e k) := by
  have hsize := e.blockSize_pos
  unfold Counted at h
  rw [hphase] at h
  obtain ⟨⟨m, hm, rfl, hn⟩, hlt, hpos⟩ := h
  have hnext : (m + 1) * e.blockSize = m * e.blockSize + e.blockSize := Nat.succ_mul _ _
  unfold Call.afterExtend
  cases hmk : e.useMegakernel with
  | true =>
    rw [hmk, if_pos rfl] at hpos
    split
    · rename_i hmore
      have hlong : m * e.blockSize + e.blockSize < c.prompt.length := by simpa using hmore
      have hcount : n + 1 + 1 = e.blocksFor c.req.tokens.length + (m + 1) := by omega
      refine ⟨⟨m + 1, Nat.succ_pos m, hnext.symm, hcount⟩, hlong, ?_⟩
      rw [if_pos hmk]
      exact hpos
    · rename_i hlast
      have hle : c.prompt.length ≤ m * e.blockSize + e.blockSize := by simpa using hlast
      have hdiv : (c.prompt.length - 1) / e.blockSize = m :=
        Nat.div_eq_of_lt_le (by omega) (by omega)
      apply counted_prefill_megakernel hmk hpos
      rw [hdiv]
      exact hn
  | false =>
    rw [hmk, if_neg Bool.false_ne_true] at hpos
    rw [if_neg (by simp)]
    have hfill : c.seqPos < c.prompt.length := by omega
    apply counted_prefill_legacy hmk hfill
    rw [hpos, Nat.mul_div_cancel m hsize]
    exact hn

theorem counted_afterPrefill {n : Nat} {c : Call} (hphase : c.phase = .prefill)
    (h : Counted e n c) (passes : Nat) :
    Counted e n
      ({ c with passes := passes, seqPos := c.seqPos + (c.chunk e).length }.afterPrefill e) := by
  have hsize := e.blockSize_pos
  unfold Counted at h
  rw [hphase] at h
  obtain ⟨hn, hpos⟩ := h
  have hlen : c.nextLen e = c.seqPos + (c.chunk e).length := by
    simp [Call.nextLen, Call.forwardTokens, hphase]
  rw [hlen] at hn
  set q := c.seqPos + (c.chunk e).length with hq
  cases hmk : e.useMegakernel with
  | true =>
    rw [hmk, if_pos rfl] at hpos
    have hall : q = c.prompt.length := hlen.symm.trans (nextLen_megakernel hmk hphase hpos)
    have hsample : Call.afterPrefill e { c with passes := passes, seqPos := q } =
        { c with passes := passes, seqPos := q, phase := .sample } := by
      simp [Call.afterPrefill, hmk]
    rw [hsample]
    refine ⟨?_, fun hne => hall ▸ List.length_pos_of_ne_nil hne⟩
    have hextra : ¬ (c.prompt = [] ∧ 0 < q) := by
      rintro ⟨hnil, hlt⟩
      rw [hall, hnil] at hlt
      cases hlt
    simp only [Call.extra, hextra, if_false]
    exact hn
  | false =>
    rw [hmk, if_neg Bool.false_ne_true] at hpos
    have hone : q = c.seqPos + 1 := hlen.symm.trans (nextLen_legacy hmk hphase hpos)
    have hne : c.prompt ≠ [] := List.ne_nil_of_length_pos (Nat.zero_lt_of_lt hpos)
    unfold Call.afterPrefill
    dsimp only
    split
    · refine ⟨?_, fun _ => by dsimp only; omega⟩
      simp only [Call.extra, hne, false_and, if_false]
      exact hn
    · rename_i hmore
      have hlt : q < c.prompt.length := by simpa [hmk] using hmore
      split
      · rename_i hmod
        have hmul : q / e.blockSize * e.blockSize = q :=
          Nat.div_mul_cancel (Nat.dvd_of_mod_eq_zero hmod)
        have hm : 0 < q / e.blockSize := by
          apply Nat.pos_of_ne_zero
          intro hzero
          rw [hzero] at hmul
          omega
        have hprev := pred_div_mul hsize hm
        rw [hmul] at hprev
        refine ⟨⟨q / e.blockSize, hm, hmul.symm, ?_⟩, hlt, by rw [hmk]; rfl⟩
        dsimp only
        omega
      · rename_i hmod
        apply counted_prefill_legacy (c := { c with passes := passes, seqPos := q }) hmk hlt
        dsimp only
        rw [← pred_div_of_mod hsize hmod]
        exact hn

/-- The decode loop extends at the boundaries only. -/
theorem afterSample_boundary {c : Call} {token : Token}
    (h : (c.afterSample e token).phase = .decodeExtend) : c.seqPos % e.blockSize = 0 := by
  unfold Call.afterSample at h
  dsimp only at h
  split at h
  · cases h
  split at h
  · cases h
  split at h
  · cases h
  split at h
  · assumption
  · cases h

theorem counted_afterSample {n : Nat} {c : Call} (hphase : c.phase = .sample)
    (h : Counted e n c) (token : Token) : Counted e n (c.afterSample e token) := by
  have hsize := e.blockSize_pos
  unfold Counted at h
  rw [hphase] at h
  obtain ⟨hn, hpos⟩ := h
  obtain ⟨r, hb | hb | ⟨hmod, hb⟩⟩ := afterSample_cases (e := e) c token
  · rw [hb]
    trivial
  · have hboundary : c.seqPos % e.blockSize = 0 := afterSample_boundary (by rw [hb])
    rw [hb]
    exact ⟨hn, hpos, hboundary⟩
  · rw [hb]
    refine ⟨?_, hpos⟩
    have hlt : 0 < c.seqPos := by
      apply Nat.pos_of_ne_zero
      intro hzero
      rw [hzero, Nat.zero_mod] at hmod
      exact hmod rfl
    simp only [Call.extra, hlt, and_true] at hn
    rw [pred_div_of_mod hsize hmod] at hn
    exact hn

theorem counted_decodeExtend {n : Nat} {c : Call} (hphase : c.phase = .decodeExtend)
    (h : Counted e n c) : Counted e (n + 1) { c with phase := .decode } := by
  have hsize := e.blockSize_pos
  unfold Counted at h
  rw [hphase] at h
  obtain ⟨hn, hpos, hmod⟩ := h
  refine ⟨?_, hpos⟩
  dsimp only
  rcases Nat.eq_zero_or_pos c.seqPos with hzero | hlt
  · have hnil : c.prompt = [] := by
      by_contra hne
      have hlt := hpos hne
      omega
    rw [hn, hzero, hnil, Call.extra, if_neg (by omega), if_pos rfl, Nat.zero_sub]
  · have hmul : c.seqPos / e.blockSize * e.blockSize = c.seqPos :=
      Nat.div_mul_cancel (Nat.dvd_of_mod_eq_zero hmod)
    have hm : 0 < c.seqPos / e.blockSize := 
      Nat.div_pos (Nat.le_of_dvd hlt (Nat.dvd_of_mod_eq_zero hmod)) hsize
    have hprev := pred_div_mul hsize hm
    rw [hmul] at hprev
    simp only [Call.extra, hlt, and_true] at hn
    omega

theorem counted_decode {n : Nat} {c : Call} (hphase : c.phase = .decode) (h : Counted e n c)
    (passes step : Nat) :
    Counted e n
      { c with passes := passes, seqPos := c.seqPos + 1, step := step, phase := .sample } := by
  unfold Counted at h
  rw [hphase] at h
  refine ⟨?_, fun _ => Nat.succ_pos _⟩
  simp only [Call.extra, Nat.succ_pos, and_true, Nat.add_sub_cancel]
  exact h.1

/-! ## Steps and runs -/

variable {i : ι} {s : Device ι Cell Logits Capture Book} {c : Call}

theorem tableOf_some {a : Allocator Unit} {q : UInt64} {bt : List Nat}
    (h : a.blockTables.lookup q = some bt) : a.tableOf q = bt := by
  rw [tableOf, h, Option.getD_some]

/-- A live call gets a block exactly when one is free. -/
theorem extendSequence_length (hp : PoolOk e s.alloc)
    (hlive : (s.alloc.blockTables.lookup (seqId i)).isSome = true) :
    (s.alloc.freeList ≠ [] ∧ ∃ id a', s.alloc.extendSequence (seqId i) = (some id, a') ∧
      (a'.tableOf (seqId i)).length = (s.alloc.tableOf (seqId i)).length + 1) ∨
    (s.alloc.freeList = [] ∧ s.alloc.extendSequence (seqId i) = (none, s.alloc)) := by
  obtain ⟨bt, hbt⟩ := Option.isSome_iff_exists.mp hlive
  rcases extendSequence_spec hp.exclusive hbt with ⟨hfree, a', id, hr, -, -, hlook⟩ | ⟨hnil, hr⟩
  · left
    refine ⟨hfree, id, a', hr, ?_⟩
    rw [tableOf_some hlook, tableOf_some hbt, List.length_append, List.length_singleton]
  · exact Or.inr ⟨hnil, hr⟩

/-- A step moves the count and the table alike, and takes no block from a call that goes on.
    The table may have `d` blocks more than are counted. -/
theorem counted_shift (hp : PoolOk e s.alloc)
    (hlive : (s.alloc.blockTables.lookup (seqId i)).isSome = c.phase.live) {n d : Nat}
    (hlen : (s.alloc.tableOf (seqId i)).length = n + d) (h : Counted e n c) :
    ∃ n', Counted e n' (act e seqId i s c).2 ∧ ((act e seqId i s c).2.phase.live = true →
      n ≤ n' ∧ ((act e seqId i s c).1.alloc.tableOf (seqId i)).length = n' + d) := by
  unfold act
  cases hphase : c.phase with
  | allocate =>
    rw [hphase] at hlive
    have hnone : s.alloc.blockTables.lookup (seqId i) = none := by simpa [Phase.live] using hlive
    have hzero : n + d = 0 := by
      rw [← hlen, tableOf, hnone, Option.getD_none, List.length_nil]
    unfold Counted at h
    rw [hphase] at h
    rcases allocateSequence_spec hp.exclusive hnone c.req.tokens.length with
      ⟨-, a', bt, hr, -, -, hlook, hbt⟩ | ⟨-, hr⟩
    · rw [hr]
      refine ⟨e.blocksFor c.req.tokens.length, ⟨rfl, h⟩, fun _ => ⟨by omega, ?_⟩⟩
      show (a'.tableOf (seqId i)).length = e.blocksFor c.req.tokens.length + d
      rw [tableOf_some hlook, hbt, promptBlocks_eq hp.size]
      omega
    · rw [hr]
      refine ⟨0, trivial, ?_⟩
      intro hlive
      cases hlive
  | reduce =>
    unfold Counted at h
    rw [hphase] at h
    exact ⟨n, counted_beginPrefill h.1 h.2, fun _ => ⟨le_rfl, hlen⟩⟩
  | extend k =>
    rw [hphase] at hlive
    rcases extendSequence_length hp hlive with ⟨-, id, a', hr, hmore⟩ | ⟨-, hr⟩
    · rw [hr]
      refine ⟨n + 1, counted_afterExtend hphase h, fun _ => ⟨Nat.le_succ n, ?_⟩⟩
      dsimp only
      omega
    · rw [hr]
      exact ⟨n, trivial, fun _ => ⟨le_rfl, hlen⟩⟩
  | prefill =>
    dsimp only
    split
    · exact ⟨n, trivial, fun _ => ⟨le_rfl, hlen⟩⟩
    · rename_i d' hr
      obtain ⟨halloc, -⟩ := runForward_ok hr
      have hnext := counted_afterPrefill hphase h (c.passes + 1)
      rw [hphase] at hnext
      refine ⟨n, hnext, fun _ => ⟨le_rfl, ?_⟩⟩
      dsimp only
      rw [prefilled_alloc, halloc, hlen]
  | sample =>
    exact ⟨n, counted_afterSample hphase h (e.sampler s.logits.value), fun _ => ⟨le_rfl, hlen⟩⟩
  | decodeExtend =>
    rw [hphase] at hlive
    rcases extendSequence_length hp hlive with ⟨-, id, a', hr, hmore⟩ | ⟨-, hr⟩
    · rw [hr]
      refine ⟨n + 1, counted_decodeExtend hphase h, fun _ => ⟨Nat.le_succ n, ?_⟩⟩
      dsimp only
      omega
    · rw [hr]
      exact ⟨n, trivial, fun _ => ⟨le_rfl, hlen⟩⟩
  | decode =>
    dsimp only
    split
    · exact ⟨n, trivial, fun _ => ⟨le_rfl, hlen⟩⟩
    · rename_i d' hr
      obtain ⟨halloc, -⟩ := runForward_ok hr
      refine ⟨n, counted_decode hphase h (c.passes + 1) (c.step + 1), fun _ => ⟨le_rfl, ?_⟩⟩
      dsimp only
      rw [halloc, hlen]
  | release =>
    refine ⟨n, trivial, ?_⟩
    intro hlive
    cases hlive
  | returned =>
    refine ⟨n, h, fun hlive => ?_⟩
    rw [hphase] at hlive
    cases hlive

/-- A call without blocks may have any count. -/
theorem Counted.of_not_live {n n' : Nat} (hlive : c.phase.live = false) (h : Counted e n c) :
    Counted e n' c := by
  unfold Counted at h ⊢
  cases hphase : c.phase with
  | allocate =>
    rw [hphase] at h
    exact h
  | returned => trivial
  | reduce | extend k | prefill | sample | decodeExtend | decode | release =>
    rw [hphase] at hlive
    cases hlive

theorem counted_act (hp : PoolOk e s.alloc)
    (hlive : (s.alloc.blockTables.lookup (seqId i)).isSome = c.phase.live)
    (h : Counted e (s.alloc.tableOf (seqId i)).length c) :
    Counted e ((act e seqId i s c).1.alloc.tableOf (seqId i)).length (act e seqId i s c).2 := by
  obtain ⟨n', hn', hlen⟩ := counted_shift hp hlive (Nat.add_zero _).symm h
  cases hnext : (act e seqId i s c).2.phase.live with
  | true =>
    rw [(hlen hnext).2]
    exact hn'
  | false => exact hn'.of_not_live hnext

/-- The calls, each with its count of blocks. -/
structure Accounted (e : Engine Cell Logits Capture Book) (seqId : ι → UInt64)
    (w : Calls ι Cell Logits Capture Book) : Prop where
  inv : Inv e seqId w
  counted : ∀ i, Counted e (w.shared.alloc.tableOf (seqId i)).length (w.locals i)

theorem accounted_next [DecidableEq ι] {w : Calls ι Cell Logits Capture Book}
    (hinj : Function.Injective seqId) (h : Accounted e seqId w) (i : ι) :
    Accounted e seqId (w.next (act e seqId) i) := by
  refine ⟨inv_next hinj h.inv i, ?_⟩
  intro j
  by_cases hj : j = i
  · subst hj
    have hnow : (w.next (act e seqId) j).locals j =
        (act e seqId j w.shared (w.locals j)).2 := by simp [Threads.next]
    rw [hnow]
    exact counted_act h.inv.pool (h.inv.live j) (h.counted j)
  · have hnow : (w.next (act e seqId) i).locals j = w.locals j := by simp [Threads.next, hj]
    have htable : (w.next (act e seqId) i).shared.alloc.tableOf (seqId j) =
        w.shared.alloc.tableOf (seqId j) := by
      have hother := (act_pool h.inv.pool (h.inv.live i)).2.1
      unfold tableOf
      rw [← hother.tables (seqId j) fun heq => hj (hinj heq)]
      rfl
    rw [hnow, htable]
    exact h.counted j

theorem accounted_start (e : Engine Cell Logits Capture Book) (seqId : ι → UInt64)
    (reqs : ι → GenerateRequest) :
    Accounted e seqId (Threads.start (e.newDevice ι) (issued reqs)) :=
  ⟨⟨⟨exclusive_init _ _ _, rfl, rfl⟩, fun _ => rfl⟩, fun _ => rfl⟩

theorem accounted_run [DecidableEq ι] (e : Engine Cell Logits Capture Book) (seqId : ι ↪ UInt64)
    (reqs : ι → GenerateRequest) (is : List ι) :
    AllStates (Threads.step (act e seqId)) (Accounted e seqId)
      (Threads.start (e.newDevice ι) (issued reqs)) is := by
  refine allStates_of_kept ?_ (accounted_start e seqId reqs) is
  intro w i w' hw hst
  cases hst
  exact accounted_next seqId.injective hw i

/-! ## When the count is exact -/

/-- `a` full blocks reserved and `b` boundaries passed make the larger of the two only when
    one of them is nothing. -/
theorem add_eq_max_iff {a b x : Nat} :
    a + 1 + b + x = max a b + 1 ↔ (a = 0 ∨ b = 0) ∧ x = 0 := by
  omega

theorem countsExactly_forward {a : Allocator Unit} (hforwards : c.phase.forwards = true)
    (h : Counted e (a.tableOf (seqId i)).length c) :
    (a.tableOf (seqId i)).length = c.needed e ↔ c.CountsOnce e := by
  cases hphase : c.phase with
  | prefill =>
    unfold Counted at h
    unfold Call.needed Call.CountsOnce
    rw [hphase] at h ⊢
    rw [h.1, blocksFor_max, blocksFor_eq, oneBlock_iff, oneBlock_iff]
    exact (add_eq_max_iff (x := 0)).trans (and_iff_left rfl)
  | decode =>
    unfold Counted at h
    unfold Call.needed Call.CountsOnce
    rw [hphase] at h ⊢
    have hlen : c.nextLen e = c.seqPos + 1 := by
      simp [Call.nextLen, Call.forwardTokens, hphase]
    rw [h.1, blocksFor_max, blocksFor_eq, oneBlock_iff, oneBlock_iff, hlen, Nat.add_sub_cancel]
    apply add_eq_max_iff.trans
    simp only [ite_eq_right_iff, Nat.one_ne_zero, imp_false, ne_eq]
  | allocate | reduce | extend k | sample | decodeExtend | release | returned =>
    rw [hphase] at hforwards
    cases hforwards

/-- A call that is refused a block finds none free. -/
theorem refused_free (hp : PoolOk e s.alloc)
    (hlive : (s.alloc.blockTables.lookup (seqId i)).isSome = c.phase.live)
    (hrefused : Refused seqId i s.alloc c) :
    c.phase = .allocate ∧ s.alloc.tableOf (seqId i) = [] ∧
        s.alloc.freeList.length < e.blocksFor c.req.tokens.length ∨
      ((∃ k, c.phase = .extend k) ∨ c.phase = .decodeExtend) ∧ s.alloc.freeList = [] := by
  have hextend : (s.alloc.blockTables.lookup (seqId i)).isSome = true →
      (s.alloc.extendSequence (seqId i)).1 = none → s.alloc.freeList = [] := by
    intro hsome hnone
    rcases extendSequence_length hp hsome with ⟨-, id, a', hr, -⟩ | ⟨hnil, -⟩
    · rw [hr] at hnone
      cases hnone
    · exact hnil
  unfold Refused at hrefused
  cases hphase : c.phase with
  | allocate =>
    rw [hphase] at hrefused hlive
    have hnone : s.alloc.blockTables.lookup (seqId i) = none := by simpa [Phase.live] using hlive
    left
    refine ⟨rfl, by rw [tableOf, hnone]; rfl, ?_⟩
    rcases allocateSequence_spec hp.exclusive hnone c.req.tokens.length with
      ⟨-, a', bt, hr, -⟩ | ⟨hlt, -⟩
    · rw [hr] at hrefused
      cases hrefused
    · rwa [promptBlocks_eq hp.size] at hlt
  | extend k =>
    rw [hphase] at hrefused hlive
    exact Or.inr ⟨Or.inl ⟨k, rfl⟩, hextend hlive hrefused⟩
  | decodeExtend =>
    rw [hphase] at hrefused hlive
    exact Or.inr ⟨Or.inr rfl, hextend hlive hrefused⟩
  | reduce | prefill | sample | decode | release | returned =>
    rw [hphase] at hrefused
    cases hrefused

theorem countsExactly_refused (hp : PoolOk e s.alloc)
    (hlive : (s.alloc.blockTables.lookup (seqId i)).isSome = c.phase.live)
    (h : Counted e (s.alloc.tableOf (seqId i)).length c)
    (hrefused : Refused seqId i s.alloc c) :
    (s.alloc.tableOf (seqId i)).length + s.alloc.freeList.length < c.needed e ↔
      c.CountsOnce e := by
  have hsize := e.blockSize_pos
  unfold Counted at h
  rcases refused_free hp hlive hrefused with
    ⟨hphase, htable, hfew⟩ | ⟨⟨k, hphase⟩ | hphase, hnil⟩
  · unfold Call.CountsOnce Call.needed Call.nextLen
    rw [hphase, htable]
    refine iff_of_true ?_ trivial
    rw [Nat.max_zero, List.length_nil]
    omega
  · rw [hphase] at h
    obtain ⟨⟨m, hm, rfl, hn⟩, hlt, hpos⟩ := h
    have hboundary : m ≤ (c.nextLen e - 1) / e.blockSize := by
      rw [Nat.le_div_iff_mul_le hsize]
      unfold Call.nextLen
      rw [hphase]
      dsimp only
      split
      · omega
      · rename_i hmk
        rw [if_neg hmk] at hpos
        omega
    unfold Call.CountsOnce Call.needed
    rw [hphase, hnil, blocksFor_max]
    dsimp only
    rw [Nat.mul_div_cancel m hsize, blocksFor_eq (c.nextLen e)]
    rw [blocksFor_eq] at hn ⊢
    simp only [List.length_nil]
    omega
  · rw [hphase] at h
    obtain ⟨hn, hpos, hmod⟩ := h
    have hlen : c.nextLen e = c.seqPos + 1 := by
      unfold Call.nextLen
      rw [hphase]
    unfold Call.CountsOnce Call.needed
    rw [hphase, hnil, blocksFor_max, hn, blocksFor_eq, hlen, Nat.add_sub_cancel]
    dsimp only
    rw [oneBlock_iff]
    simp only [List.length_nil]
    generalize (c.req.tokens.length - 1) / e.blockSize = a
    rcases Nat.eq_zero_or_pos c.seqPos with hzero | hgt
    · have hempty : c.prompt = [] := by
        by_contra hne
        have hgt := hpos hne
        omega
      refine iff_of_false ?_ fun h => h.2 hempty
      rw [hzero, Nat.zero_sub, Nat.zero_div]
      omega
    · have hmul : c.seqPos / e.blockSize * e.blockSize = c.seqPos :=
        Nat.div_mul_cancel (Nat.dvd_of_mod_eq_zero hmod)
      have hm : 0 < c.seqPos / e.blockSize :=
        Nat.div_pos (Nat.le_of_dvd hgt (Nat.dvd_of_mod_eq_zero hmod)) hsize
      have hprev := pred_div_mul hsize hm
      rw [hmul] at hprev
      rw [hprev]
      generalize c.seqPos / e.blockSize = m at hm
      by_cases hempty : c.prompt = []
      · have hextra : c.extra = 1 := if_pos ⟨hempty, hgt⟩
        refine iff_of_false ?_ fun h => h.2 hempty
        omega
      · have hextra : c.extra = 0 := if_neg fun h => hempty h.1
        rw [hextra]
        constructor
        · intro hlt
          exact ⟨by omega, hempty⟩
        · rintro ⟨ha, -⟩
          omega

/-- In every state of an interleaving of calls, and for every call: it has exactly the blocks
    its next forward pass needs, and is refused blocks only when the pool cannot hold that
    many, if and only if no block was counted twice. -/
theorem countsExactly_iff [DecidableEq ι] (e : Engine Cell Logits Capture Book) (seqId : ι ↪ UInt64)
    (reqs : ι → GenerateRequest) (is : List ι) :
    AllStates (Threads.step (act e seqId))
      (fun w => ∀ i, CountsExactly e seqId i w.shared.alloc (w.locals i) ↔
        ((w.locals i).phase.forwards = true ∨ Refused seqId i w.shared.alloc (w.locals i) →
          (w.locals i).CountsOnce e))
      (Threads.start (e.newDevice ι) (issued reqs)) is := by
  apply (accounted_run e seqId reqs is).mono
  intro w hw i
  have hcount := hw.counted i
  have hlive := hw.inv.live i
  constructor
  · rintro ⟨hforward, hrefused⟩ (h | h)
    · exact (countsExactly_forward h hcount).mp (hforward h)
    · exact (countsExactly_refused hw.inv.pool hlive hcount h).mp (hrefused h)
  · intro hok
    refine ⟨fun h => ?_, fun h => ?_⟩
    · exact (countsExactly_forward h hcount).mpr (hok (Or.inl h))
    · exact (countsExactly_refused hw.inv.pool hlive hcount h).mpr (hok (Or.inr h))

/-! ## A prompt of two blocks -/

/-- A pool of two blocks of 16 tokens. -/
def twoBlockEngine : Engine Unit Unit Unit Unit where
  vocab := { isEog := fun _ => false, eos := 0, typed := false, piece := fun _ _ => [] }
  blockSize := 16
  blockSize_pos := by decide
  maxNumBlocks := 2
  useMegakernel := true
  forward _ _ := .ok (fun _ => (), ())
  sampler _ := 7
  compressTokens _ tokens := tokens
  updateCache _ _ := ()
  runKvCompressionPass book _ cells := (book, cells)
  zeroCell := ()
  noLogits := ()
  noCapture := ()
  noCodebook := ()

/-- 32 tokens, which fill the pool. -/
def fullPrompt (_ : Unit) : GenerateRequest := { tokens := List.replicate 32 5 }

/-- The call has both blocks of the pool, which is all it needs, and is refused a third. -/
theorem fullPrompt_refused :
    ¬ AllStates (Threads.step (act twoBlockEngine fun _ => 1))
      (fun w => ∀ i, CountsExactly twoBlockEngine (fun _ => 1) i w.shared.alloc (w.locals i))
      (Threads.start (twoBlockEngine.newDevice Unit) (issued fullPrompt)) [(), ()] := by
  have hrun : (run (Threads.step (act twoBlockEngine fun _ => 1))
      (Threads.start (twoBlockEngine.newDevice Unit) (issued fullPrompt)) [(), ()]).map
      (fun w => ((w.locals ()).phase, (w.shared.alloc.extendSequence 1).1,
        (w.shared.alloc.tableOf 1).length + w.shared.alloc.freeList.length,
        (w.locals ()).needed twoBlockEngine)) = some (.extend 16, none, 2, 2) := by
    decide +kernel
  obtain ⟨w, hw, hview⟩ := Option.map_eq_some_iff.mp hrun
  simp only [Prod.mk.injEq] at hview
  obtain ⟨hphase, hnone, hroom, hneeded⟩ := hview
  intro h
  have hexact := (h.last hw ()).2
  unfold Refused at hexact
  rw [hphase, hroom, hneeded] at hexact
  exact absurd (hexact hnone) (Nat.lt_irrefl 2)

end TruellmEngine.Cuda
