/-
  A stream that several writers share, and length-prefixed frames on it.

  Each element of the stream has an owner. `blocks f ids` is the stream of whole blocks, one
  owner after the other. `Partway` describes a stream of whole blocks and the start of one
  more: it is what writing keeps as long as nobody writes while another block is begun
  (`Partway.switch`, `Partway.advance`). Conversely, where the owner changes on a stream of
  whole blocks, the blocks of all others are whole or not begun (`owned_of_switch`).

  A frame is a little-endian length of 4 bytes and the payload. `readFrames` is the reader;
  from a start of a stream of frames it reads payloads of these frames, in order
  (`readFrames_prefix`), and it reads them all (`readFrames_frames`).
-/
import Mathlib.Algebra.Group.Nat.Defs
import Mathlib.Data.List.Basic
import Mathlib.Data.List.Nodup
import Mathlib.Data.List.Infix
import Mathlib.Logic.Function.Basic

namespace TruellmEngine.Lib

/-! ## Blocks of owners -/

section Blocks

variable {ι α : Type*}

/-- The elements of owner `i`. -/
def ownedBy (i : ι) (xs : List α) : List (ι × α) := xs.map (Prod.mk i)

/-- The blocks of the owners `ids`, whole and in this order. -/
def blocks (f : ι → List α) (ids : List ι) : List (ι × α) :=
  ids.flatMap fun i => ownedBy i (f i)

theorem blocks_cons (f : ι → List α) (i : ι) (ids : List ι) :
    blocks f (i :: ids) = ownedBy i (f i) ++ blocks f ids :=
  rfl

theorem blocks_append (f : ι → List α) (ids : List ι) (i : ι) :
    blocks f (ids ++ [i]) = blocks f ids ++ ownedBy i (f i) := by
  simp [blocks]

variable [DecidableEq ι] {f : ι → List α} {w : ι → Nat} {stream : List (ι × α)}
  {done : List ι} {i j : ι}

/-- How many elements of the stream `j` owns. -/
def owned (j : ι) (stream : List (ι × α)) : Nat := stream.countP fun x => x.1 = j

theorem owned_append (j : ι) (xs ys : List (ι × α)) :
    owned j (xs ++ ys) = owned j xs + owned j ys :=
  List.countP_append

theorem owned_self (i : ι) (xs : List α) : owned i (ownedBy i xs) = xs.length := by
  unfold owned ownedBy
  rw [List.countP_map, List.countP_eq_length.mpr]
  intro x _
  simp

theorem owned_of_ne (h : j ≠ i) (xs : List α) : owned j (ownedBy i xs) = 0 := by
  unfold owned ownedBy
  rw [List.countP_map, List.countP_eq_zero]
  intro x _
  simpa using h.symm

theorem owned_blocks (hdone : done.Nodup) (j : ι) :
    owned j (blocks f done) = if j ∈ done then (f j).length else 0 := by
  induction done with
  | nil => rfl
  | cons k done ih =>
    obtain ⟨hk, hdone'⟩ := List.nodup_cons.mp hdone
    rw [blocks_cons, owned_append, ih hdone']
    by_cases hj : j = k
    · subst hj
      simp [owned_self, hk]
    · simp [owned_of_ne hj, hj]

/-- The whole blocks of `done` and what block `i` has so far; `w` counts what each has. -/
structure Partway (f : ι → List α) (w : ι → Nat) (stream : List (ι × α)) (done : List ι)
    (i : ι) : Prop where
  eq : stream = blocks f done ++ ownedBy i ((f i).take (w i))
  nodup : done.Nodup
  notMem : i ∉ done
  others : ∀ k ≠ i, w k = if k ∈ done then (f k).length else 0

theorem Partway.isPrefix (h : Partway f w stream done i) :
    stream <+: blocks f (done ++ [i]) := by
  rw [h.eq, blocks_append]
  exact (List.prefix_append_right_inj _).mpr ((List.take_prefix _ _).map _)

theorem Partway.owned (h : Partway f w stream done i) (hle : w i ≤ (f i).length) (j : ι) :
    owned j stream = w j := by
  rw [h.eq, owned_append, owned_blocks h.nodup]
  by_cases hj : j = i
  · subst hj
    rw [if_neg h.notMem, owned_self, List.length_take]
    omega
  · rw [owned_of_ne hj, h.others j hj, Nat.add_zero]

/-- Between two blocks: whole ones only, of those who have elements. -/
theorem Partway.whole (h : Partway f w stream done i) (hi : w i = 0 ∨ w i = (f i).length) :
    ∃ ids : List ι, ids.Nodup ∧ stream = blocks f ids ∧ ∀ k, w k ≠ 0 → k ∈ ids := by
  have hdone : ∀ k ≠ i, w k ≠ 0 → k ∈ done := by
    intro k hk hne
    by_contra hmem
    rw [h.others k hk, if_neg hmem] at hne
    exact hne rfl
  rcases hi with hi | hi
  · refine ⟨done, h.nodup, ?_, ?_⟩
    · rw [h.eq, hi, List.take_zero]
      exact List.append_nil _
    · intro k hk
      by_cases hki : k = i
      · subst hki
        exact absurd hi hk
      · exact hdone k hki hk
  · refine ⟨done ++ [i], ?_, ?_, ?_⟩
    · exact List.nodup_append'.mpr ⟨h.nodup, List.nodup_singleton i, by simpa using h.notMem⟩
    · rw [h.eq, hi, List.take_length, blocks_append]
    · intro k hk
      by_cases hki : k = i
      · simp [hki]
      · exact List.mem_append_left _ (hdone k hki hk)

/-- Another block begins where the last one is whole, or not begun. -/
theorem Partway.switch (h : Partway f w stream done j) (hj : w j = 0 ∨ w j = (f j).length)
    (hne : i ≠ j) (hi : w i < (f i).length) : ∃ done', Partway f w stream done' i := by
  have hmem : i ∉ done := by
    intro hmem
    have hw := h.others i hne
    rw [if_pos hmem] at hw
    omega
  have hzero : w i = 0 := by rw [h.others i hne, if_neg hmem]
  rcases hj with hj | hj
  · refine ⟨done, ?_, h.nodup, hmem, ?_⟩
    · rw [h.eq, hj, hzero, List.take_zero, List.take_zero]
      rfl
    · intro k hk
      by_cases hkj : k = j
      · subst hkj
        rw [hj, if_neg h.notMem]
      · exact h.others k hkj
  · refine ⟨done ++ [j], ?_, ?_, ?_, ?_⟩
    · rw [h.eq, blocks_append, hj, hzero, List.take_length, List.take_zero]
      exact (List.append_nil _).symm
    · exact List.nodup_append'.mpr ⟨h.nodup, List.nodup_singleton j, by simpa using h.notMem⟩
    · simp [hmem, hne]
    · intro k hk
      by_cases hkj : k = j
      · subst hkj
        simp [hj]
      · simp [h.others k hkj, hkj]

/-- The next `n` elements of the block. -/
theorem Partway.advance (h : Partway f w stream done i) (n : Nat) :
    Partway f (Function.update w i (w i + n))
      (stream ++ ownedBy i (((f i).drop (w i)).take n)) done i := by
  refine ⟨?_, h.nodup, h.notMem, ?_⟩
  · rw [h.eq, Function.update_self, List.take_add, List.append_assoc]
    simp [ownedBy]
  · intro k hk
    rw [Function.update_of_ne hk]
    exact h.others k hk

/-- Where a stream of whole blocks goes on with an element of `i`, any other owner has its
    whole block or nothing before it. -/
theorem owned_of_switch {ids : List ι} (hids : ids.Nodup) {xs ys : List (ι × α)} {b : α}
    (h : xs ++ (i, b) :: ys = blocks f ids) (hj : j ≠ i) :
    Lib.owned j xs = 0 ∨ Lib.owned j xs = (f j).length := by
  induction ids generalizing xs with
  | nil => simp [blocks] at h
  | cons k ids ih =>
    obtain ⟨hk, hids'⟩ := List.nodup_cons.mp hids
    rw [blocks_cons] at h
    have hothers : k = j → Lib.owned j (blocks f ids) = 0 := by
      rintro rfl
      rw [owned_blocks hids', if_neg hk]
    rcases List.append_eq_append_iff.mp h with ⟨zs, hblock, hrest⟩ | ⟨zs, hxs, hrest⟩
    · cases zs with
      | nil =>
        rw [List.append_nil] at hblock
        rw [← hblock]
        by_cases hkj : j = k
        · subst hkj
          exact Or.inr (owned_self j _)
        · exact Or.inl (owned_of_ne hkj _)
      | cons z zs =>
        -- the change is inside the block of `k`, so `k` is `i`
        obtain ⟨rfl, -⟩ := List.cons.inj hrest
        have hmem : (i, b) ∈ ownedBy k (f k) := by
          rw [hblock]
          simp
        obtain ⟨a, -, ha⟩ := List.mem_map.mp hmem
        have hki : k = i := congrArg Prod.fst ha
        have hzero : Lib.owned j (ownedBy k (f k)) = 0 := owned_of_ne (hki ▸ hj) _
        rw [hblock, owned_append] at hzero
        exact Or.inl (by omega)
    · rw [hxs, owned_append]
      by_cases hkj : j = k
      · subst hkj
        have hzero := hothers rfl
        rw [hrest, owned_append] at hzero
        rw [owned_self]
        exact Or.inr (by omega)
      · rw [owned_of_ne hkj, Nat.zero_add]
        exact ih hids' hrest.symm

end Blocks

/-! ## Frames -/

/-- The four bytes of a length, lowest first. -/
def lengthPrefix (len : UInt32) : List UInt8 :=
  [(len &&& 0xFF).toUInt8, ((len >>> 8) &&& 0xFF).toUInt8, ((len >>> 16) &&& 0xFF).toUInt8,
    ((len >>> 24) &&& 0xFF).toUInt8]

/-- The number of bytes in little-endian order. -/
def fromLittleEndian : List UInt8 → Nat
  | [] => 0
  | b :: bs => b.toNat + 256 * fromLittleEndian bs

/-- What a frame can carry. -/
structure Payload where
  bytes : List UInt8
  length_lt : bytes.length < 2 ^ 32

def Payload.frame (p : Payload) : List UInt8 :=
  lengthPrefix (UInt32.ofNat p.bytes.length) ++ p.bytes

/-- The payloads that a reader takes from the bytes, `fuel` at most. -/
def readFrames : Nat → List UInt8 → List (List UInt8)
  | 0, _ => []
  | fuel + 1, bs =>
    if 4 ≤ bs.length ∧ fromLittleEndian (bs.take 4) ≤ (bs.drop 4).length then
      (bs.drop 4).take (fromLittleEndian (bs.take 4)) ::
        readFrames fuel ((bs.drop 4).drop (fromLittleEndian (bs.take 4)))
    else
      []

theorem fromLittleEndian_lengthPrefix (len : UInt32) :
    fromLittleEndian (lengthPrefix len) = len.toNat := by
  have hlt := len.toNat_lt
  have hmask : ∀ n : Nat, n &&& 255 = n % 256 := fun n => Nat.and_two_pow_sub_one_eq_mod n 8
  simp [lengthPrefix, fromLittleEndian, hmask, Nat.shiftRight_eq_div_pow]
  omega

theorem Payload.frame_length (p : Payload) : p.frame.length = 4 + p.bytes.length := by
  simp [frame, lengthPrefix]
  omega

/-- The reader takes the payload from a frame that is there as a whole. -/
theorem readFrames_cons (fuel : Nat) (p : Payload) (bs : List UInt8) :
    readFrames (fuel + 1) (p.frame ++ bs) = p.bytes :: readFrames fuel bs := by
  have htake : (p.frame ++ bs).take 4 = lengthPrefix (UInt32.ofNat p.bytes.length) := by
    simp [Payload.frame, lengthPrefix]
  have hdrop : (p.frame ++ bs).drop 4 = p.bytes ++ bs := by
    simp [Payload.frame, lengthPrefix]
  have hlen : fromLittleEndian ((p.frame ++ bs).take 4) = p.bytes.length := by
    rw [htake, fromLittleEndian_lengthPrefix]
    exact UInt32.toNat_ofNat_of_lt' p.length_lt
  have hwhole : 4 ≤ (p.frame ++ bs).length ∧ fromLittleEndian ((p.frame ++ bs).take 4) ≤
      ((p.frame ++ bs).drop 4).length := by
    rw [hlen, hdrop, List.length_append, Payload.frame_length, List.length_append]
    omega
  rw [readFrames, if_pos hwhole, hlen, hdrop, List.take_left, List.drop_left]

/-- A reader with the whole stream takes every payload. -/
theorem readFrames_frames {fuel : Nat} {ps : List Payload} (h : ps.length ≤ fuel) :
    readFrames fuel (ps.flatMap Payload.frame) = ps.map Payload.bytes := by
  induction fuel generalizing ps with
  | zero =>
    rw [List.length_eq_zero_iff.mp (Nat.le_zero.mp h)]
    rfl
  | succ fuel ih =>
    cases ps with
    | nil => rfl
    | cons p ps =>
      rw [List.flatMap_cons, readFrames_cons, ih (by simpa using h)]
      rfl

/-- A reader with the start of a stream of frames takes payloads of these frames. -/
theorem readFrames_prefix {fuel : Nat} {ps : List Payload} {bs : List UInt8}
    (h : bs <+: ps.flatMap Payload.frame) :
    readFrames fuel bs <+: ps.map Payload.bytes := by
  induction fuel generalizing ps bs with
  | zero => exact List.nil_prefix
  | succ fuel ih =>
    cases ps with
    | nil =>
      rw [List.prefix_nil.mp h]
      exact List.nil_prefix
    | cons p ps =>
      rw [List.flatMap_cons] at h
      by_cases hwhole : p.frame <+: bs
      · obtain ⟨rest, rfl⟩ := hwhole
        rw [readFrames_cons]
        exact List.cons_prefix_cons.mpr ⟨rfl, ih ((List.prefix_append_right_inj _).mp h)⟩
      · rw [readFrames, if_neg]
        · exact List.nil_prefix
        · -- the length is there, and so would be the payload
          rintro ⟨hlen, hpayload⟩
          obtain ⟨rest, hrest⟩ := h
          have htake : bs.take 4 = lengthPrefix (UInt32.ofNat p.bytes.length) := by
            rw [← List.take_append_of_le_length hlen, hrest]
            simp [Payload.frame, lengthPrefix]
          rw [htake, fromLittleEndian_lengthPrefix, UInt32.toNat_ofNat_of_lt' p.length_lt,
            List.length_drop] at hpayload
          refine hwhole (List.prefix_of_prefix_length_le (List.prefix_append _ _) ⟨rest, hrest⟩ ?_)
          rw [Payload.frame_length]
          omega

end TruellmEngine.Lib
