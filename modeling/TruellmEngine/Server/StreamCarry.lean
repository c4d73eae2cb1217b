/-
  The streaming callbacks: pieces of a text that may end inside of a code point are sent on up to
  the last complete one, and the rest is carried to the next piece.

  `stream_arrives`: for a valid text, in whatever pieces, the chunks are valid, together they are
  the longest front of the bytes received that ends between code points, and in the end they are
  the text. The pieces of a generator are C strings: what a piece holds from a `NUL` on is not
  seen, so there the text must not have one (`stream_arrives_iff`).
-/
import TruellmEngine.Server.SanitizeUtf8
import Mathlib.Data.List.TakeWhile

namespace TruellmEngine.Server

open Lib

structure StreamCarry where
  sent : List (List UInt8) := []
  carry : List UInt8 := []

namespace StreamCarry

/-- `emit_delta`: empty chunks are not sent. -/
def emitDelta (st : StreamCarry) (value : List UInt8) : StreamCarry :=
  if value = [] then st else { st with sent := st.sent ++ [value] }

/-- Appends the piece, and sends what is complete. -/
def push (st : StreamCarry) (piece : List UInt8) : StreamCarry :=
  let received := st.carry ++ piece
  let emit := sanitizeUtf8 received
  { st with carry := received.drop emit.length }.emitDelta emit

end StreamCarry

/-- The callback of a stream without tools, and that of a generator. -/
inductive StreamCallback where
  | chat
  | generator

/-- What the callback sees of a piece: a generator's is a C string. -/
def StreamCallback.seen : StreamCallback → List UInt8 → List UInt8
  | .chat, piece => piece
  | .generator, piece => piece.takeWhile (· ≠ 0)

/-- `on_token`. Of a generator an empty piece is not looked at. -/
def StreamCallback.onToken (cb : StreamCallback) (st : StreamCarry) (piece : List UInt8) :
    StreamCarry :=
  match cb with
  | .chat => st.push (cb.seen piece)
  | .generator => if cb.seen piece = [] then st else st.push (cb.seen piece)

def StreamCallback.stream (cb : StreamCallback) (pieces : List (List UInt8)) : StreamCarry :=
  pieces.foldl cb.onToken {}

/-! ## One piece -/

namespace StreamCarry

/-- Of the text `done ++ next`, `done` was sent in valid chunks, and the rest of what was received
    is carried. -/
structure Sent (done next : List Char) (received : List UInt8) (st : StreamCarry) : Prop where
  split : Split String.utf8EncodeChar done next received st.carry
  sent : st.sent.flatten = encodeAll String.utf8EncodeChar done
  valid : ∀ chunk ∈ st.sent, Utf8 chunk

theorem emitDelta_sent (st : StreamCarry) (value : List UInt8) :
    (st.emitDelta value).sent.flatten = st.sent.flatten ++ value := by
  unfold emitDelta
  split_ifs with hempty
  · rw [hempty, List.append_nil]
  · rw [List.flatten_append, List.flatten_singleton]

theorem emitDelta_carry (st : StreamCarry) (value : List UInt8) :
    (st.emitDelta value).carry = st.carry := by
  unfold emitDelta
  split_ifs <;> rfl

theorem mem_emitDelta {st : StreamCarry} {value chunk : List UInt8}
    (h : chunk ∈ (st.emitDelta value).sent) : chunk ∈ st.sent ∨ chunk = value := by
  unfold emitDelta at h
  split_ifs at h with hempty
  · exact .inl h
  · exact (List.mem_append.mp h).imp_right List.mem_singleton.mp

theorem Sent.push {done next : List Char} {received piece : List UInt8} {st : StreamCarry}
    (h : st.Sent done next received)
    (hpiece : received ++ piece <+: encodeAll String.utf8EncodeChar (done ++ next)) :
    ∃ now later, next = now ++ later ∧
      (st.push piece).Sent (done ++ now) later (received ++ piece) := by
  obtain ⟨now, later, rest, hnext, hemit, hrest, hsplit⟩ := h.split.more sanitizeUtf8_cuts hpiece
  have hcarry : (st.push piece).carry = rest := by
    unfold StreamCarry.push
    rw [emitDelta_carry, hemit, hrest, List.drop_left]
  refine ⟨now, later, hnext, hcarry ▸ hsplit, ?_, ?_⟩
  · unfold StreamCarry.push
    rw [emitDelta_sent, hemit, encodeAll_append, ← h.sent]
  · intro chunk hchunk
    rcases mem_emitDelta hchunk with hbefore | rfl
    · exact h.valid chunk hbefore
    · exact ⟨now, hemit⟩

theorem Sent.onToken (cb : StreamCallback) {done next : List Char} {received piece : List UInt8}
    {st : StreamCarry} (h : st.Sent done next received)
    (hpiece : received ++ cb.seen piece <+: encodeAll String.utf8EncodeChar (done ++ next)) :
    ∃ now later, next = now ++ later ∧
      (cb.onToken st piece).Sent (done ++ now) later (received ++ cb.seen piece) := by
  cases cb with
  | chat => exact h.push hpiece
  | generator =>
    unfold StreamCallback.onToken
    dsimp only
    split_ifs with hempty
    · exact ⟨[], next, rfl, by rw [hempty, List.append_nil, List.append_nil]; exact h⟩
    · exact h.push hpiece

/-- Nothing of a piece is lost, whatever it holds. -/
theorem push_kept (st : StreamCarry) (piece : List UInt8) :
    (st.push piece).sent.flatten ++ (st.push piece).carry =
      st.sent.flatten ++ st.carry ++ piece := by
  have hprefix : sanitizeUtf8 (st.carry ++ piece) <+: st.carry ++ piece := List.take_prefix _ _
  have hall := List.prefix_iff_eq_append.mp hprefix
  unfold push
  rw [emitDelta_sent, emitDelta_carry, List.append_assoc, hall, List.append_assoc]

theorem onToken_kept (cb : StreamCallback) (st : StreamCarry) (piece : List UInt8) :
    (cb.onToken st piece).sent.flatten ++ (cb.onToken st piece).carry =
      st.sent.flatten ++ st.carry ++ cb.seen piece := by
  cases cb with
  | chat => exact st.push_kept _
  | generator =>
    unfold StreamCallback.onToken
    dsimp only
    split_ifs with hempty
    · rw [hempty, List.append_nil]
    · exact st.push_kept _

end StreamCarry

/-! ## The whole stream -/

theorem stream_kept (cb : StreamCallback) (pieces : List (List UInt8)) :
    (cb.stream pieces).sent.flatten ++ (cb.stream pieces).carry =
      (pieces.map cb.seen).flatten := by
  induction pieces using List.reverseRecOn with
  | nil => rfl
  | append_singleton pieces piece ih =>
    unfold StreamCallback.stream at ih ⊢
    rw [List.foldl_append, List.map_append, List.flatten_append, ← ih, List.map_singleton,
      List.flatten_singleton]
    exact StreamCarry.onToken_kept cb _ piece

/-- Behind pieces that are a front of the text. -/
theorem stream_sent (cb : StreamCallback) {cs : List Char} {pieces : List (List UInt8)}
    (h : (pieces.map cb.seen).flatten <+: encodeAll String.utf8EncodeChar cs) :
    ∃ done next, cs = done ++ next ∧
      (cb.stream pieces).Sent done next (pieces.map cb.seen).flatten := by
  induction pieces using List.reverseRecOn with
  | nil => exact ⟨[], cs, rfl, ⟨rfl, .inl rfl⟩, rfl, fun _ hc => absurd hc List.not_mem_nil⟩
  | append_singleton pieces piece ih =>
    rw [List.map_append, List.flatten_append, List.map_singleton, List.flatten_singleton] at h ⊢
    obtain ⟨done, next, rfl, hsent⟩ := ih ((List.prefix_append _ _).trans h)
    obtain ⟨now, later, rfl, hpush⟩ := hsent.onToken cb h
    refine ⟨done ++ now, later, (List.append_assoc _ _ _).symm, ?_⟩
    unfold StreamCallback.stream
    rw [List.foldl_append]
    exact hpush

/-- What is sent of a text: valid chunks, which are the longest front of `received` that ends
    between two code points, and the rest is carried. -/
structure Carried (cs : List Char) (received : List UInt8) (st : StreamCarry) : Prop where
  valid : ∀ chunk ∈ st.sent, Utf8 chunk
  nothingLost : st.sent.flatten ++ st.carry = received
  boundary : ∃ front, front <+: cs ∧ st.sent.flatten = encodeAll String.utf8EncodeChar front
  longest : ∀ front, front <+: cs → encodeAll String.utf8EncodeChar front <+: received →
    (encodeAll String.utf8EncodeChar front).length ≤ st.sent.flatten.length

/-- The text is carried behind any number of its pieces, and sent behind the last. -/
structure Arrives (cb : StreamCallback) (cs : List Char) (pieces : List (List UInt8)) :
    Prop where
  carried : ∀ n, Carried cs (pieces.take n).flatten (cb.stream (pieces.take n))
  sent : (cb.stream pieces).sent.flatten = encodeAll String.utf8EncodeChar cs
  carry : (cb.stream pieces).carry = []

/-- A text arrives of whose pieces the callback sees everything. -/
theorem stream_arrives (cb : StreamCallback) (cs : List Char) (pieces : List (List UInt8))
    (h : pieces.flatten = encodeAll String.utf8EncodeChar cs)
    (hseen : ∀ piece ∈ pieces, cb.seen piece = piece) : Arrives cb cs pieces := by
  have hcarried (n : Nat) : Carried cs (pieces.take n).flatten (cb.stream (pieces.take n)) := by
    have hall : (pieces.take n).map cb.seen = pieces.take n :=
      List.map_congr_left (fun piece hp => hseen piece (List.mem_of_mem_take hp)) |>.trans
        (List.map_id _)
    have hfront : (pieces.take n).flatten <+: encodeAll String.utf8EncodeChar cs := by
      rw [← h]
      exact (List.take_prefix n pieces).flatten
    rw [← hall] at hfront
    obtain ⟨done, next, rfl, hsent⟩ := stream_sent cb hfront
    rw [hall] at hsent
    refine ⟨hsent.valid, ?_, ⟨done, List.prefix_append _ _, hsent.sent⟩, ?_⟩
    · rw [hsent.sent, hsent.split.eq]
    · intro front hle hreceived
      rw [hsent.sent]
      exact hsent.split.longest hle hreceived
  have hall := hcarried pieces.length
  rw [List.take_length] at hall
  have hlength := hall.longest cs (List.prefix_refl _) (h ▸ List.prefix_refl _)
  have hlost := hall.nothingLost
  have hcarry : (cb.stream pieces).carry = [] := by
    apply List.eq_nil_of_length_eq_zero
    have hsum := congrArg List.length hlost
    rw [List.length_append, h] at hsum
    omega
  rw [hcarry, List.append_nil, h] at hlost
  exact ⟨hcarried, hlost, hcarry⟩

/-! ## Texts with a `NUL` -/

/-- Only U+0000 is encoded with a zero byte. -/
theorem zero_mem_utf8EncodeChar {c : Char} : 0 ∈ String.utf8EncodeChar c ↔ c = '\x00' := by
  constructor
  · intro h
    obtain ⟨lead, rest, hc, hneed, hrest⟩ := utf8EncodeChar_eq c
    have hlead : lead = 0 := by
      rw [hc] at h
      rcases List.mem_cons.mp h with hzero | hzero
      · exact hzero.symm
      · exact absurd (List.all_eq_true.mp hrest 0 hzero) (by decide)
    subst hlead
    have hone : rest = [] := by
      have hneed' : utf8Need 0 = some 1 := by decide
      rw [hneed', Option.some.injEq] at hneed
      exact List.eq_nil_of_length_eq_zero (by omega)
    rw [hone] at hc
    have hsize : c.utf8Size = 1 := (String.length_utf8EncodeChar c).symm.trans (congrArg _ hc)
    rw [String.utf8EncodeChar_eq_singleton hsize] at hc
    have hle := Char.utf8Size_eq_one_iff.mp hsize
    refine Char.ext (UInt32.toNat_inj.mp ?_)
    have hval := congrArg UInt8.toNat (List.cons.inj hc).1
    rw [UInt32.toNat_toUInt8] at hval
    rw [UInt32.le_iff_toNat_le] at hle
    change c.val.toNat % 2 ^ 8 = 0 at hval
    change c.val.toNat ≤ 127 at hle
    change c.val.toNat = 0
    omega
  · rintro rfl
    decide

theorem zero_mem_encodeAll {cs : List Char} :
    0 ∈ encodeAll String.utf8EncodeChar cs ↔ '\x00' ∈ cs := by
  unfold encodeAll
  rw [List.mem_flatMap]
  constructor
  · rintro ⟨c, hc, hzero⟩
    rwa [zero_mem_utf8EncodeChar.mp hzero] at hc
  · intro h
    exact ⟨_, h, zero_mem_utf8EncodeChar.mpr rfl⟩

/-- A generator's piece is seen up to its first zero byte. -/
theorem zero_not_mem_seen (piece : List UInt8) : 0 ∉ StreamCallback.generator.seen piece := by
  intro h
  have hne := List.mem_takeWhile_imp h
  exact absurd rfl (of_decide_eq_true hne)

theorem seen_eq (cb : StreamCallback) {piece : List UInt8}
    (h : cb = .generator → 0 ∉ piece) : cb.seen piece = piece := by
  cases cb with
  | chat => rfl
  | generator =>
    refine List.takeWhile_eq_self_iff.mpr fun b hb => decide_eq_true ?_
    rintro rfl
    exact h rfl hb

/-- Behind either callback a text arrives, but behind a generator's only one without a `NUL`. -/
theorem stream_arrives_iff (cb : StreamCallback) (cs : List Char) (pieces : List (List UInt8))
    (h : pieces.flatten = encodeAll String.utf8EncodeChar cs) :
    Arrives cb cs pieces ↔ (cb = .generator → '\x00' ∉ cs) := by
  constructor
  · rintro harrives rfl hnul
    have hkept := stream_kept .generator pieces
    rw [harrives.sent, harrives.carry, List.append_nil] at hkept
    have hzero := zero_mem_encodeAll.mpr hnul
    rw [hkept, List.mem_flatten] at hzero
    obtain ⟨seen, hseen, hzero⟩ := hzero
    obtain ⟨piece, -, rfl⟩ := List.mem_map.mp hseen
    exact zero_not_mem_seen piece hzero
  · intro hnul
    refine stream_arrives cb cs pieces h fun piece hpiece => seen_eq cb fun hcb hzero => ?_
    have hmem : 0 ∈ pieces.flatten := List.mem_flatten.mpr ⟨piece, hpiece, hzero⟩
    rw [h] at hmem
    exact hnul hcb (zero_mem_encodeAll.mp hmem)

/-- A code point in two pieces. -/
theorem stream_arrives_split : Arrives .generator ['\u00e9'] [[0xC3], [0xA9]] :=
  (stream_arrives_iff .generator ['\u00e9'] [[0xC3], [0xA9]] (by decide)).mpr
    fun _ => by decide

/-- Of a generator's piece the text up to the `NUL` is sent. -/
theorem nul_cut_off :
    [[0x61, 0x00, 0x62]].flatten = encodeAll String.utf8EncodeChar ['a', '\x00', 'b'] ∧
      (StreamCallback.generator.stream [[0x61, 0x00, 0x62]]).sent = [[0x61]] ∧
      ¬ Arrives .generator ['a', '\x00', 'b'] [[0x61, 0x00, 0x62]] := by
  have hsent : (StreamCallback.generator.stream [[0x61, 0x00, 0x62]]).sent = [[0x61]] := by
    decide +kernel
  refine ⟨by decide, hsent, fun h => ?_⟩
  have hall := h.sent
  rw [hsent] at hall
  exact absurd hall (by decide)

end TruellmEngine.Server
