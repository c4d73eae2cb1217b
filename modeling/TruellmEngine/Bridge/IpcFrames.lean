/-
  One `send` after the other on a connection, and the loop that receives at its other end.

  A write may take any part of its bytes, and a read gives any part of what it asks for:
  `sents` are the results of the writes, and the stream comes in the pieces of `arriving`.
  A piece is split by a read that asks for less, and an empty one is a read that fails.

  `frames_arrive`: while no write fails every send succeeds, and what is sent arrives, however
  it is written and read; and from any stream the loop takes whole frames of the admitted
  lengths only.
-/
import TruellmEngine.Lib.Framing

namespace TruellmEngine.Bridge

open Lib

/-- The length that `recv_loop` admits. -/
def maxFrame : Nat := 16 * 1024 * 1024

structure Packet extends Payload where
  nonempty : 0 < bytes.length
  le : bytes.length ≤ maxFrame

namespace IpcFrames

/-! ## Sending -/

structure Sent where
  ok : Bool
  written : List UInt8
  sents : List Nat

/-- `write_to_fd`. -/
def writeToFd : List Nat → List UInt8 → Sent
  | sents, [] => ⟨true, [], sents⟩
  | [], _ :: _ => ⟨false, [], []⟩
  | 0 :: sents, _ :: _ => ⟨false, [], sents⟩
  | (sent + 1) :: sents, b :: bs =>
    let rest := writeToFd sents (bs.drop sent)
    { rest with written := b :: bs.take sent ++ rest.written }

def send (connected : Bool) (sents : List Nat) (data : Payload) : Sent :=
  if !connected then ⟨false, [], sents⟩
  else
    let hdr := writeToFd sents (lengthPrefix (UInt32.ofNat data.bytes.length))
    if hdr.ok then
      let body := writeToFd hdr.sents data.bytes
      { body with written := hdr.written ++ body.written }
    else hdr

/-- The results of the sends, and what they have left on the stream. -/
def sendAll (connected : Bool) : List Nat → List Payload → List Bool × List UInt8
  | _, [] => ([], [])
  | sents, data :: rest =>
    let sent := send connected sents data
    let more := sendAll connected sent.sents rest
    (sent.ok :: more.1, sent.written ++ more.2)

theorem writeToFd_written {sents : List Nat} {data : List UInt8}
    (h : (writeToFd sents data).ok = true) : (writeToFd sents data).written = data := by
  induction sents generalizing data with
  | nil =>
    cases data with
    | nil => rfl
    | cons b bs => cases h
  | cons sent sents ih =>
    cases data with
    | nil => rfl
    | cons b bs =>
      cases sent with
      | zero => cases h
      | succ sent =>
        change b :: bs.take sent ++ (writeToFd sents (bs.drop sent)).written = b :: bs
        rw [ih h, List.cons_append, List.take_append_drop]

/-- A send that succeeds has written its frame. -/
theorem send_written {connected : Bool} {sents : List Nat} {data : Payload}
    (h : (send connected sents data).ok = true) :
    (send connected sents data).written = data.frame := by
  unfold send at h ⊢
  cases connected with
  | false => cases h
  | true =>
    dsimp only at h ⊢
    split at h
    · rename_i hconnected
      cases hconnected
    · split at h
      · rename_i hhdr
        rw [if_pos hhdr]
        change _ ++ _ = data.frame
        rw [writeToFd_written hhdr, writeToFd_written h]
        rfl
      · rename_i hhdr
        exact absurd h hhdr

/-- Where no write fails, and none is left out, all bytes are written. -/
theorem writeToFd_ok {sents : List Nat} (data : List UInt8) (hpos : 0 ∉ sents)
    (hlen : data.length ≤ sents.length) :
    (writeToFd sents data).ok = true ∧ 0 ∉ (writeToFd sents data).sents ∧
      sents.length ≤ (writeToFd sents data).sents.length + data.length := by
  induction sents generalizing data with
  | nil =>
    obtain rfl := List.eq_nil_of_length_eq_zero (Nat.le_zero.mp hlen)
    exact ⟨rfl, hpos, Nat.le_add_right _ _⟩
  | cons sent sents ih =>
    cases data with
    | nil => exact ⟨rfl, hpos, Nat.le_add_right _ _⟩
    | cons b bs =>
      obtain ⟨hsent, hsents⟩ := List.ne_and_not_mem_of_not_mem_cons hpos
      cases sent with
      | zero => exact absurd rfl hsent
      | succ sent =>
        rw [List.length_cons, List.length_cons] at hlen
        have hdrop : (bs.drop sent).length ≤ bs.length := by
          rw [List.length_drop]
          exact Nat.sub_le _ _
        obtain ⟨hok, hleft, hcount⟩ := ih (bs.drop sent) hsents (by omega)
        refine ⟨hok, hleft, ?_⟩
        change sents.length + 1 ≤ (writeToFd sents (bs.drop sent)).sents.length + (bs.length + 1)
        omega

theorem send_ok {sents : List Nat} (data : Payload) (hpos : 0 ∉ sents)
    (hlen : data.frame.length ≤ sents.length) :
    (send true sents data).ok = true ∧ 0 ∉ (send true sents data).sents ∧
      sents.length ≤ (send true sents data).sents.length + data.frame.length := by
  have hfour : (lengthPrefix (UInt32.ofNat data.bytes.length)).length = 4 := rfl
  rw [Payload.frame_length] at hlen ⊢
  obtain ⟨hhdr, hleft, hcount⟩ :=
    writeToFd_ok (lengthPrefix (UInt32.ofNat data.bytes.length)) hpos (by omega)
  obtain ⟨hbody, hrest, htotal⟩ := writeToFd_ok data.bytes hleft (by omega)
  unfold send
  rw [if_neg (by decide), if_pos hhdr]
  refine ⟨hbody, hrest, ?_⟩
  change sents.length ≤ (writeToFd _ data.bytes).sents.length + _
  omega

/-- A send fails only where one of its writes does. -/
theorem sendAll_ok {sents : List Nat} {payloads : List Payload} (hpos : 0 ∉ sents)
    (hlen : (payloads.flatMap Payload.frame).length ≤ sents.length) :
    (sendAll true sents payloads).1 = payloads.map fun _ => true := by
  induction payloads generalizing sents with
  | nil => rfl
  | cons data rest ih =>
    rw [List.flatMap_cons, List.length_append] at hlen
    obtain ⟨hok, hleft, hcount⟩ := send_ok data hpos (by omega)
    change (send true sents data).ok :: (sendAll true (send true sents data).sents rest).1 = _
    rw [hok, ih hleft (by omega), List.map_cons]

theorem sendAll_written {connected : Bool} {sents : List Nat} {payloads : List Payload}
    (h : ∀ ok ∈ (sendAll connected sents payloads).1, ok = true) :
    (sendAll connected sents payloads).2 = payloads.flatMap Payload.frame := by
  induction payloads generalizing sents with
  | nil => rfl
  | cons data rest ih =>
    obtain ⟨hdata, hrest⟩ := List.forall_mem_cons.mp h
    change (send connected sents data).written ++ _ = _
    rw [send_written hdata, ih hrest, List.flatMap_cons]

/-! ## Reading -/

/-- A read of at most `want` bytes. -/
def read (want : Nat) : List (List UInt8) → List UInt8 × List (List UInt8)
  | [] => ([], [])
  | piece :: arriving =>
    if piece.length ≤ want then (piece, arriving)
    else (piece.take want, piece.drop want :: arriving)

/-- What the reads get before one fails. -/
def stream (arriving : List (List UInt8)) : List UInt8 :=
  (arriving.takeWhile fun piece => !piece.isEmpty).flatten

theorem stream_cons {piece : List UInt8} (h : piece ≠ []) (arriving : List (List UInt8)) :
    stream (piece :: arriving) = piece ++ stream arriving := by
  unfold stream
  rw [List.takeWhile_cons_of_pos (by simpa using h), List.flatten_cons]

theorem stream_of_pieces {arriving : List (List UInt8)} (h : [] ∉ arriving) :
    stream arriving = arriving.flatten := by
  induction arriving with
  | nil => rfl
  | cons piece arriving ih =>
    obtain ⟨hpiece, hrest⟩ := List.ne_and_not_mem_of_not_mem_cons h
    rw [stream_cons (Ne.symm hpiece), ih hrest, List.flatten_cons]

/-- A read gets something unless the stream is over, and nothing else than what comes next. -/
theorem read_spec {want : Nat} (hwant : 0 < want) (arriving : List (List UInt8)) :
    (read want arriving).1.length ≤ want ∧
      ((read want arriving).1 = [] → stream arriving = []) ∧
      ((read want arriving).1 ≠ [] →
        (read want arriving).1 ++ stream (read want arriving).2 = stream arriving) := by
  cases arriving with
  | nil => exact ⟨Nat.zero_le want, fun _ => rfl, fun h => absurd rfl h⟩
  | cons piece arriving =>
    rw [read]
    by_cases hle : piece.length ≤ want
    · rw [if_pos hle]
      refine ⟨hle, ?_, fun hpiece => (stream_cons hpiece arriving).symm⟩
      rintro rfl
      rfl
    · rw [if_neg hle]
      have hpiece : piece ≠ [] := by
        rintro rfl
        exact hle (Nat.zero_le want)
      have hdrop : piece.drop want ≠ [] := by
        rw [Ne, List.drop_eq_nil_iff]
        exact hle
      refine ⟨List.length_take_le want piece, ?_, ?_⟩
      · intro h
        rcases List.take_eq_nil_iff.mp h with h | h
        · omega
        · exact absurd h hpiece
      · intro _
        rw [stream_cons hdrop, stream_cons hpiece, ← List.append_assoc, List.take_append_drop]

/-- The loop of `read_exact`: the bytes, and what is still to arrive. -/
def readExact (n : Nat) (arriving : List (List UInt8)) :
    Option (List UInt8 × List (List UInt8)) :=
  if n = 0 then some ([], arriving)
  else
    match read n arriving with
    | ([], _) => none
    | (b :: got, rest) =>
      (readExact (n - (got.length + 1)) rest).map fun r => (b :: got ++ r.1, r.2)
termination_by n

/-- A read in a loop gets its bytes just if the stream has them. -/
theorem readExact_spec (n : Nat) (arriving : List (List UInt8)) :
    match readExact n arriving with
    | none => (stream arriving).length < n
    | some r => r.1.length = n ∧ stream arriving = r.1 ++ stream r.2 := by
  induction n using Nat.strong_induction_on generalizing arriving with
  | _ n ih =>
    unfold readExact
    by_cases hn : n = 0
    · rw [if_pos hn]
      exact ⟨hn.symm, rfl⟩
    · rw [if_neg hn]
      obtain ⟨hle, hend, hgot⟩ := read_spec (Nat.pos_of_ne_zero hn) arriving
      rcases hread : read n arriving with ⟨got, rest⟩
      rw [hread] at hle hend hgot
      cases got with
      | nil =>
        dsimp only
        rw [hend rfl]
        exact Nat.pos_of_ne_zero hn
      | cons b got =>
        have hstream := hgot (List.cons_ne_nil b got)
        have hlen := congrArg List.length hstream
        dsimp only at hle hlen hstream
        rw [List.length_append] at hlen
        rw [List.length_cons] at hle hlen
        have hrest := ih (n - (got.length + 1)) (by omega) rest
        dsimp only
        cases hexact : readExact (n - (got.length + 1)) rest with
        | none =>
          rw [hexact] at hrest
          dsimp only [Option.map_none] at hrest ⊢
          omega
        | some r =>
          rw [hexact] at hrest
          dsimp only [Option.map_some] at hrest ⊢
          obtain ⟨hlength, hsplit⟩ := hrest
          refine ⟨?_, ?_⟩
          · rw [List.length_append, List.length_cons]
            omega
          · rw [← hstream, hsplit, List.append_assoc]

/-! ## Receiving -/

def headerLength (hdr : List UInt8) : UInt32 :=
  (hdr.getD 0 0).toUInt32 ||| ((hdr.getD 1 0).toUInt32 <<< 8) |||
    ((hdr.getD 2 0).toUInt32 <<< 16) ||| ((hdr.getD 3 0).toUInt32 <<< 24)

/-- The length of a frame that the loop does not read. -/
def Invalid (len : UInt32) : Prop := len = 0 ∨ maxFrame < len.toNat

instance (len : UInt32) : Decidable (Invalid len) := inferInstanceAs (Decidable (_ ∨ _))

theorem readExact_none {n : Nat} {arriving : List (List UInt8)}
    (h : readExact n arriving = none) : (stream arriving).length < n := by
  have hspec := readExact_spec n arriving
  rwa [h] at hspec

theorem readExact_some {n : Nat} {arriving : List (List UInt8)}
    {r : List UInt8 × List (List UInt8)} (h : readExact n arriving = some r) :
    r.1.length = n ∧ stream arriving = r.1 ++ stream r.2 := by
  have hspec := readExact_spec n arriving
  rwa [h] at hspec

/-- A byte above the ones that are there. -/
theorem or_shiftLeft (b : UInt8) {low k : Nat} (h : low < 2 ^ k) :
    low ||| b.toNat <<< k = low + b.toNat * 2 ^ k := by
  rw [Nat.or_comm, ← Nat.shiftLeft_add_eq_or_of_lt h, Nat.shiftLeft_eq, Nat.add_comm]

theorem shiftLeft_mod (b : UInt8) {k : Nat} (hk : k ≤ 24) :
    b.toNat <<< k % 2 ^ 32 = b.toNat <<< k := by
  refine Nat.mod_eq_of_lt ?_
  rw [Nat.shiftLeft_eq]
  calc b.toNat * 2 ^ k
      < 2 ^ 8 * 2 ^ k := Nat.mul_lt_mul_of_pos_right b.toNat_lt (Nat.two_pow_pos k)
    _ ≤ 2 ^ 8 * 2 ^ 24 := Nat.mul_le_mul_left _ (Nat.pow_le_pow_right (by decide) hk)
    _ = 2 ^ 32 := by decide

theorem headerLength_toNat (a b c d : UInt8) :
    (headerLength [a, b, c, d]).toNat = fromLittleEndian [a, b, c, d] := by
  have ha := a.toNat_lt
  have hb := b.toNat_lt
  have hc := c.toNat_lt
  unfold headerLength
  simp only [List.getD_cons_zero, List.getD_cons_succ, UInt32.toNat_or, UInt8.toNat_toUInt32,
    UInt32.toNat_shiftLeft]
  change a.toNat ||| b.toNat <<< 8 % 2 ^ 32 ||| c.toNat <<< 16 % 2 ^ 32 |||
    d.toNat <<< 24 % 2 ^ 32 = _
  rw [shiftLeft_mod b (by decide), shiftLeft_mod c (by decide), shiftLeft_mod d (by decide),
    or_shiftLeft b ha, or_shiftLeft c (by omega), or_shiftLeft d (by omega)]
  simp only [fromLittleEndian]
  omega

/-- Header and length are one to one, in both directions. -/
theorem lengthPrefix_headerLength {hdr : List UInt8} (h : hdr.length = 4) :
    lengthPrefix (headerLength hdr) = hdr := by
  obtain ⟨a, b, c, d, rfl⟩ := List.length_eq_four.mp h
  have hlen := headerLength_toNat a b c d
  have hmask : ∀ n : Nat, n &&& 255 = n % 256 := fun n => Nat.and_two_pow_sub_one_eq_mod n 8
  have ha := a.toNat_lt
  have hb := b.toNat_lt
  have hc := c.toNat_lt
  have hd := d.toNat_lt
  simp only [fromLittleEndian] at hlen
  simp [lengthPrefix, ← UInt8.toNat_inj, hmask, Nat.shiftRight_eq_div_pow, hlen]
  omega

theorem headerLength_lengthPrefix (len : UInt32) : headerLength (lengthPrefix len) = len := by
  refine UInt32.toNat_inj.mp ?_
  unfold lengthPrefix
  rw [headerLength_toNat]
  exact fromLittleEndian_lengthPrefix len

/-- One turn of `recv_loop`: the payload for the callback, unless the loop ends. -/
def readFrame (arriving : List (List UInt8)) : Option (List UInt8 × List (List UInt8)) :=
  match readExact 4 arriving with
  | none => none
  | some (hdr, arriving) =>
    if Invalid (headerLength hdr) then none
    else readExact (headerLength hdr).toNat arriving

/-- What follows is the start of a frame at most, or no frame that is read. -/
def Stops (bs : List UInt8) : Prop :=
  bs.length < 4 ∨ Invalid (headerLength (bs.take 4)) ∨
    bs.length < 4 + (headerLength (bs.take 4)).toNat

theorem readFrame_none {arriving : List (List UInt8)} (h : readFrame arriving = none) :
    Stops (stream arriving) := by
  unfold readFrame at h
  cases hhdr : readExact 4 arriving with
  | none => exact Or.inl (readExact_none hhdr)
  | some r =>
    obtain ⟨hfour, hstream⟩ := readExact_some hhdr
    rw [hhdr] at h
    dsimp only at h
    unfold Stops
    rw [hstream, List.take_left' hfour, List.length_append, hfour]
    split at h
    · rename_i hinvalid
      exact Or.inr (Or.inl hinvalid)
    · exact Or.inr (Or.inr (Nat.add_lt_add_left (readExact_none h) 4))

/-- A turn that delivers takes one whole frame from the stream. -/
theorem readFrame_some {arriving : List (List UInt8)} {r : List UInt8 × List (List UInt8)}
    (h : readFrame arriving = some r) :
    ∃ p : Packet, r.1 = p.bytes ∧ stream arriving = p.frame ++ stream r.2 := by
  unfold readFrame at h
  cases hhdr : readExact 4 arriving with
  | none =>
    rw [hhdr] at h
    cases h
  | some q =>
    obtain ⟨hfour, hstream⟩ := readExact_some hhdr
    rw [hhdr] at h
    dsimp only at h
    split at h
    · cases h
    · rename_i hvalid
      obtain ⟨hlength, hrest⟩ := readExact_some h
      have hlt := (headerLength q.1).toNat_lt
      have hpos : 0 < (headerLength q.1).toNat := by
        refine Nat.pos_of_ne_zero fun hzero => hvalid (Or.inl ?_)
        exact UInt32.toNat_inj.mp hzero
      have hle : (headerLength q.1).toNat ≤ maxFrame :=
        Nat.le_of_not_lt fun hlarge => hvalid (Or.inr hlarge)
      rw [← hlength] at hlt hpos hle
      refine ⟨⟨⟨r.1, hlt⟩, hpos, hle⟩, rfl, ?_⟩
      unfold Payload.frame
      rw [hlength, UInt32.ofNat_toNat, lengthPrefix_headerLength hfour, List.append_assoc,
        ← hrest, ← hstream]

/-- The payloads that `recv_loop` delivers; its test number `turn` finds the transport
    `connected turn`. -/
def recvLoop (connected : Nat → Bool) (turn : Nat) (arriving : List (List UInt8)) :
    List (List UInt8) :=
  if !connected turn then []
  else
    match hframe : readFrame arriving with
    | none => []
    | some (payload, rest) => payload :: recvLoop connected (turn + 1) rest
termination_by (stream arriving).length
decreasing_by
  obtain ⟨p, -, hstream⟩ := readFrame_some hframe
  dsimp only at hstream
  rw [hstream, List.length_append, Payload.frame_length]
  omega

/-- The loop delivers the whole frames from the start of the stream, and ends where no other
    follows or where the transport is closed. -/
theorem recvLoop_spec (connected : Nat → Bool) (turn : Nat) (arriving : List (List UInt8)) :
    ∃ (packets : List Packet) (rest : List UInt8),
      recvLoop connected turn arriving = packets.map (·.bytes) ∧
      stream arriving = packets.flatMap (·.frame) ++ rest ∧
      (Stops rest ∨ connected (turn + packets.length) = false) := by
  induction turn, arriving using recvLoop.induct connected with
  | case1 turn arriving hclosed =>
    refine ⟨[], stream arriving, ?_, rfl, Or.inr (by simpa using hclosed)⟩
    rw [recvLoop, if_pos hclosed]
    rfl
  | case2 turn arriving hopen hframe =>
    refine ⟨[], stream arriving, ?_, rfl, Or.inl (readFrame_none hframe)⟩
    rw [recvLoop, if_neg hopen]
    split
    · rfl
    · rename_i hsome
      rw [hframe] at hsome
      cases hsome
  | case3 turn arriving hopen payload rest hframe ih =>
    obtain ⟨p, hpayload, hstream⟩ := readFrame_some hframe
    obtain ⟨packets, left, hloop, hrest, hends⟩ := ih
    refine ⟨p :: packets, left, ?_, ?_, ?_⟩
    · rw [recvLoop, if_neg hopen]
      split
      · rename_i hnone
        rw [hframe] at hnone
        cases hnone
      · rename_i hsome
        rw [hframe] at hsome
        cases hsome
        rw [hloop, List.map_cons, ← hpayload]
    · rw [hstream, hrest, List.flatMap_cons, List.append_assoc]
    · rw [List.length_cons, Nat.add_comm packets.length, ← Nat.add_assoc]
      exact hends

/-! ## Round trip -/

theorem headerLength_frame (p : Packet) (bs : List UInt8) :
    (headerLength ((p.frame ++ bs).take 4)).toNat = p.bytes.length := by
  have htake : (p.frame ++ bs).take 4 = lengthPrefix (UInt32.ofNat p.bytes.length) := by
    simp [Payload.frame, lengthPrefix]
  rw [htake, headerLength_lengthPrefix]
  exact UInt32.toNat_ofNat_of_lt' p.length_lt

/-- The loop does not stop at a whole frame. -/
theorem not_stops_frame (p : Packet) (bs : List UInt8) : ¬ Stops (p.frame ++ bs) := by
  have hlen := headerLength_frame p bs
  have hlength : (p.frame ++ bs).length = 4 + p.bytes.length + bs.length := by
    rw [List.length_append, Payload.frame_length]
  unfold Stops Invalid
  rw [hlength, hlen]
  rintro (hfour | (hzero | hlarge) | hshort)
  · omega
  · rw [hzero] at hlen
    exact absurd hlen.symm p.nonempty.ne'
  · exact absurd p.le (Nat.not_le_of_lt hlarge)
  · omega

/-- Two frames at the start of one stream carry the same payload. -/
theorem frame_inj {p q : Packet} {bs bs' : List UInt8}
    (h : p.frame ++ bs = q.frame ++ bs') : p.bytes = q.bytes ∧ bs = bs' := by
  have hlength : p.bytes.length = q.bytes.length := by
    rw [← headerLength_frame p bs, h, headerLength_frame]
  have hframe : p.frame.length = q.frame.length := by
    rw [Payload.frame_length, Payload.frame_length, hlength]
  obtain ⟨hpq, hrest⟩ := List.append_inj h hframe
  unfold Payload.frame at hpq
  rw [hlength] at hpq
  exact ⟨List.append_cancel_left hpq, hrest⟩

/-- A stream of frames is read as these frames only. -/
theorem frames_inj {packets packets' : List Packet} {rest : List UInt8} (hrest : Stops rest)
    (h : packets.flatMap (·.frame) = packets'.flatMap (·.frame) ++ rest) :
    packets.map (·.bytes) = packets'.map (·.bytes) := by
  induction packets generalizing packets' with
  | nil =>
    cases packets' with
    | nil => rfl
    | cons q packets' =>
      have hlength := congrArg List.length h
      rw [List.flatMap_nil, List.length_nil, List.flatMap_cons, List.length_append,
        List.length_append, Payload.frame_length] at hlength
      omega
  | cons p packets ih =>
    rw [List.flatMap_cons] at h
    cases packets' with
    | nil =>
      rw [List.flatMap_nil, List.nil_append] at h
      exact absurd (h ▸ hrest) (not_stops_frame p _)
    | cons q packets' =>
      rw [List.flatMap_cons, List.append_assoc] at h
      obtain ⟨hbytes, h⟩ := frame_inj h
      rw [List.map_cons, List.map_cons, hbytes, ih h]

/-- While no write fails every send succeeds, and its payload is received as it was sent, over
    any split of the stream; and any stream is whole frames, all received, up to where the
    loop stops. -/
theorem frames_arrive (connected : Nat → Bool) :
    (∀ (packets : List Packet) (sents : List Nat),
      (∀ turn, connected turn = true) →
      0 ∉ sents → (packets.flatMap (·.frame)).length ≤ sents.length →
      (sendAll true sents (packets.map (·.toPayload))).1 = packets.map (fun _ => true) ∧
      ∀ arriving : List (List UInt8), [] ∉ arriving →
        arriving.flatten = (sendAll true sents (packets.map (·.toPayload))).2 →
        recvLoop connected 0 arriving = packets.map (·.bytes)) ∧
    (∀ arriving, ∃ (packets : List Packet) (rest : List UInt8),
      recvLoop connected 0 arriving = packets.map (·.bytes) ∧
      stream arriving = packets.flatMap (·.frame) ++ rest ∧
      (Stops rest ∨ connected packets.length = false)) := by
  have hspec := fun arriving => recvLoop_spec connected 0 arriving
  simp only [Nat.zero_add] at hspec
  refine ⟨fun packets sents hopen hpos hlen => ?_, hspec⟩
  have hsent : (sendAll true sents (packets.map (·.toPayload))).1 =
      packets.map fun _ => true := by
    rw [sendAll_ok hpos (by rwa [List.flatMap_map]), List.map_map]
    rfl
  refine ⟨hsent, fun arriving hpieces harriving => ?_⟩
  have hok : ∀ ok ∈ (sendAll true sents (packets.map (·.toPayload))).1, ok = true := by
    rw [hsent]
    intro ok hmem
    obtain ⟨packet, -, rfl⟩ := List.mem_map.mp hmem
    rfl
  obtain ⟨packets', rest, hloop, hstream, hends⟩ := hspec arriving
  rw [stream_of_pieces hpieces, harriving, sendAll_written hok, List.flatMap_map] at hstream
  rcases hends with hends | hends
  · rw [hloop, ← frames_inj hends hstream]
  · rw [hopen] at hends
    cases hends

/-- Two payloads, the first header written in two parts and read in three. -/
theorem two_frames_arrive :
    let packets : List Packet :=
      [⟨⟨[7, 8], by decide⟩, by decide, by decide⟩, ⟨⟨[9], by decide⟩, by decide, by decide⟩]
    let sents := [1, 3, 2, 4, 1, 9, 9, 9, 9, 9, 9]
    (sendAll true sents (packets.map (·.toPayload))).1 = [true, true] ∧
      recvLoop (fun _ => true) 0 [[2], [0, 0], [0, 7, 8, 1, 0], [0, 0, 9]] = [[7, 8], [9]] := by
  intro packets sents
  obtain ⟨hsent, harrive⟩ := (frames_arrive fun _ => true).1 packets sents (fun _ => rfl)
    (by decide) (by decide)
  exact ⟨hsent, harrive _ (by decide) (by decide)⟩

end IpcFrames

end TruellmEngine.Bridge
