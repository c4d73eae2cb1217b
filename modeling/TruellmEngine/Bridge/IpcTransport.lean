/-
  Concurrent calls of `IpcTransport::send` on one connection.

  A send writes the length of its payload and then the payload, each in a loop of writes
  that may take any number of bytes, and takes no lock; a write that fails leaves what was
  written. Each byte of the stream is kept with the send that wrote it.

  `framed_iff`: the stream is whole frames and the start of one, along a run, exactly when
  bytes are written only while no other send has part of its frame on the stream.
  Then no frame is lost or sent twice (`delivers_of_oneFrame`).
  `interleaved_not_framed` is a run of two sends of which the sidecar reads a frame that
  nobody sent.
-/
import TruellmEngine.Lib.Framing
import TruellmEngine.Lib.Run

namespace TruellmEngine.Bridge

open Lib

/-- A call of `send`: the bytes of its frame written so far, and what it returned. -/
structure Send where
  written : Nat := 0
  result : Option Bool := none

structure IpcTransport where
  connected : Bool := true
  sends : Nat → Option Send := fun _ => none
  stream : List (Nat × UInt8) := []

namespace IpcTransport

inductive Move where
  | call (i : Nat)
  /-- A `write` of call `i` that takes `n` bytes. -/
  | write (i n : Nat)
  /-- A `write` of call `i` that takes none. -/
  | fail (i : Nat)
  | disconnect

/-- What the current loop of `write_to_fd` has left, of the length or of the payload. -/
def remaining (p : Payload) (written : Nat) : Nat :=
  if written < 4 then 4 - written else 4 + p.bytes.length - written

variable (data : Nat → Payload)

def step (s : IpcTransport) : Move → Option IpcTransport
  | .call i =>
    match s.sends i with
    | some _ => none
    | none =>
      let d : Send := if s.connected then {} else { result := some false }
      some { s with sends := Function.update s.sends i (some d) }
  | .write i n =>
    match s.sends i with
    | none => none
    | some d =>
      if d.result = none ∧ 0 < n ∧ n ≤ remaining (data i) d.written then
        some { s with
          stream := s.stream ++ ownedBy i (((data i).frame.drop d.written).take n)
          sends := Function.update s.sends i (some {
            written := d.written + n
            result := if d.written + n = (data i).frame.length then some true else none }) }
      else
        none
  | .fail i =>
    match s.sends i with
    | none => none
    | some d =>
      if d.result = none then
        some { s with sends := Function.update s.sends i (some { d with result := some false }) }
      else
        none
  | .disconnect => some { s with connected := false }

/-- The bytes of call `i` on the stream. -/
def writtenBy (s : IpcTransport) (i : Nat) : Nat := (s.sends i).elim 0 Send.written

/-- The stream is whole frames of different sends, and the start of one more. -/
def Framed (s : IpcTransport) : Prop :=
  ∃ ids : List Nat, ids.Nodup ∧ s.stream <+: blocks (fun i => (data i).frame) ids

/-- No other send has part of its frame on the stream, and not the rest. -/
def OneFrame (s : IpcTransport) : Move → Prop
  | .write i _ => ∀ j ≠ i, s.writtenBy j = 0 ∨ s.writtenBy j = (data j).frame.length
  | _ => True

/-- While no send has a part of its frame on the stream, the sidecar reads the payloads of the
    sends that have written, each once. -/
def Delivers (s : IpcTransport) : Prop :=
  (∀ i, s.writtenBy i = 0 ∨ s.writtenBy i = (data i).frame.length) →
    ∃ ids : List Nat, ids.Nodup ∧ (∀ i, s.writtenBy i ≠ 0 → i ∈ ids) ∧
      ∀ fuel, ids.length ≤ fuel →
        readFrames fuel (s.stream.map Prod.snd) = ids.map fun i => (data i).bytes

/-- Whole frames, and part of one. -/
structure Inv (s : IpcTransport) : Prop where
  le : ∀ i, s.writtenBy i ≤ (data i).frame.length
  partway : ∃ done i, Partway (fun i => (data i).frame) s.writtenBy s.stream done i

variable {data} {s t : IpcTransport}

theorem inv_start : Inv data {} := by
  refine ⟨fun i => Nat.zero_le _, [], 0, ?_, List.nodup_nil, List.not_mem_nil, ?_⟩
  · rfl
  · intro k _
    rfl

/-- Without writes. -/
theorem Inv.of_same (h : Inv data s) (hstream : t.stream = s.stream)
    (hwritten : t.writtenBy = s.writtenBy) : Inv data t := by
  obtain ⟨hle, hpartway⟩ := h
  exact ⟨by rwa [hwritten], by rwa [hwritten, hstream]⟩

theorem Inv.framed (h : Inv data s) : Framed data s := by
  obtain ⟨-, done, i, hpartway⟩ := h
  refine ⟨done ++ [i], ?_, hpartway.isPrefix⟩
  exact List.nodup_append'.mpr
    ⟨hpartway.nodup, List.nodup_singleton i, by simpa using hpartway.notMem⟩

theorem Inv.owned (h : Inv data s) (j : Nat) : owned j s.stream = s.writtenBy j := by
  obtain ⟨hle, done, i, hpartway⟩ := h
  exact hpartway.owned (hle i) j

theorem writtenBy_update {i : Nat} {d : Send} (hi : s.sends = Function.update t.sends i (some d)) :
    s.writtenBy = Function.update t.writtenBy i d.written := by
  funext k
  unfold writtenBy
  rw [hi]
  by_cases hk : k = i
  · subst hk
    rw [Function.update_self, Function.update_self]
    rfl
  · rw [Function.update_of_ne hk, Function.update_of_ne hk]

/-- What a write does. -/
theorem step_write {i n : Nat} (h : step data s (.write i n) = some t) :
    0 < n ∧ s.writtenBy i + n ≤ (data i).frame.length ∧
      t.stream = s.stream ++ ownedBy i (((data i).frame.drop (s.writtenBy i)).take n) ∧
      t.writtenBy = Function.update s.writtenBy i (s.writtenBy i + n) := by
  dsimp only [step] at h
  split at h
  · cases h
  · rename_i d hd
    split at h
    · rename_i hwrite
      obtain ⟨-, hn, hle⟩ := hwrite
      have hwritten : s.writtenBy i = d.written := by
        unfold writtenBy
        rw [hd]
        rfl
      cases h
      refine ⟨hn, ?_, by rw [hwritten], by rw [writtenBy_update rfl, hwritten]⟩
      rw [hwritten, Payload.frame_length]
      unfold remaining at hle
      split at hle
      · omega
      · omega
    · cases h

/-- Nothing else writes. -/
theorem step_quiet {m : Move} (h : step data s m = some t) (hm : ∀ i n, m ≠ .write i n) :
    t.stream = s.stream ∧ t.writtenBy = s.writtenBy := by
  have hupdate : ∀ {i : Nat} {d : Send}, s.writtenBy i = d.written →
      Function.update s.writtenBy i d.written = s.writtenBy := by
    intro i d hd
    rw [← hd, Function.update_eq_self]
  cases m with
  | call i =>
    dsimp only [step] at h
    split at h
    · cases h
    · rename_i hnone
      cases h
      refine ⟨rfl, (writtenBy_update rfl).trans (hupdate ?_)⟩
      unfold writtenBy
      rw [hnone]
      split <;> rfl
  | write i n => exact absurd rfl (hm i n)
  | fail i =>
    dsimp only [step] at h
    split at h
    · cases h
    · rename_i d hd
      split at h
      · cases h
        refine ⟨rfl, (writtenBy_update rfl).trans (hupdate ?_)⟩
        unfold writtenBy
        rw [hd]
        rfl
      · cases h
  | disconnect =>
    cases h
    exact ⟨rfl, rfl⟩

theorem inv_step {m : Move} (h : Inv data s) (hok : OneFrame data s m)
    (ht : step data s m = some t) : Inv data t := by
  cases m with
  | call i =>
    obtain ⟨hstream, hwritten⟩ := step_quiet ht (by simp)
    exact h.of_same hstream hwritten
  | fail i =>
    obtain ⟨hstream, hwritten⟩ := step_quiet ht (by simp)
    exact h.of_same hstream hwritten
  | disconnect =>
    obtain ⟨hstream, hwritten⟩ := step_quiet ht (by simp)
    exact h.of_same hstream hwritten
  | write i n =>
    obtain ⟨hn, hle, hstream, hwritten⟩ := step_write ht
    have hroom : s.writtenBy i < (data i).frame.length := by omega
    have hpartway : ∃ done, Partway (fun i => (data i).frame) s.writtenBy s.stream done i := by
      obtain ⟨done, j, hpartway⟩ := h.partway
      by_cases hij : i = j
      · subst hij
        exact ⟨done, hpartway⟩
      · exact hpartway.switch (hok j (Ne.symm hij)) hij hroom
    obtain ⟨done, hpartway⟩ := hpartway
    constructor
    · intro k
      rw [hwritten]
      by_cases hk : k = i
      · subst hk
        rwa [Function.update_self]
      · rw [Function.update_of_ne hk]
        exact h.le k
    · rw [hstream, hwritten]
      exact ⟨done, i, hpartway.advance n⟩

/-- A byte behind part of another frame. -/
theorem not_framed_step {m : Move} (h : Inv data s) (hok : ¬ OneFrame data s m)
    (ht : step data s m = some t) : ¬ Framed data t := by
  cases m with
  | call i => exact absurd trivial hok
  | fail i => exact absurd trivial hok
  | disconnect => exact absurd trivial hok
  | write i n =>
    obtain ⟨hn, hle, hstream, -⟩ := step_write ht
    rintro ⟨ids, hids, rest, hrest⟩
    refine hok ?_
    intro j hj
    have hne : (((data i).frame.drop (s.writtenBy i)).take n) ≠ [] := by
      intro hnil
      have hlen := congrArg List.length hnil
      rw [List.length_take, List.length_drop, List.length_nil] at hlen
      omega
    obtain ⟨b, bs, hbs⟩ := List.exists_cons_of_ne_nil hne
    rw [hstream, hbs, List.append_assoc] at hrest
    rw [← h.owned j]
    exact owned_of_switch hids hrest hj

/-- The stream is whole frames and the start of one, all along a run, exactly when every byte
    is written while no other send has part of its frame on the stream. -/
theorem framed_iff (data : Nat → Payload) (ms : List Move) :
    AllStates (step data) (Framed data) {} ms ↔ AllSteps (step data) (OneFrame data) {} ms :=
  allStates_iff_allSteps (fun _ h => h.framed) (fun _ _ _ => inv_step)
    (fun _ _ _ => not_framed_step) inv_start ms

theorem blocks_bytes (data : Nat → Payload) (ids : List Nat) :
    (blocks (fun i => (data i).frame) ids).map Prod.snd =
      (ids.map data).flatMap Payload.frame := by
  simp [blocks, ownedBy, List.map_flatMap, List.flatMap_map, Function.comp_def]

/-- From such a stream the sidecar reads payloads of the sends, each at most once. -/
theorem Framed.reads (h : Framed data s) (fuel : Nat) :
    ∃ ids : List Nat, ids.Nodup ∧
      readFrames fuel (s.stream.map Prod.snd) <+: ids.map fun i => (data i).bytes := by
  obtain ⟨ids, hids, hprefix⟩ := h
  refine ⟨ids, hids, ?_⟩
  have hread : readFrames fuel (s.stream.map Prod.snd) <+:
      (ids.map data).map Payload.bytes := by
    refine readFrames_prefix ?_
    rw [← blocks_bytes]
    exact hprefix.map Prod.snd
  rwa [List.map_map] at hread

theorem Inv.delivers (h : Inv data s) : Delivers data s := by
  intro hwhole
  obtain ⟨-, done, i, hpartway⟩ := h
  obtain ⟨ids, hids, hstream, hmem⟩ := hpartway.whole (hwhole i)
  refine ⟨ids, hids, hmem, ?_⟩
  intro fuel hfuel
  rw [hstream, blocks_bytes, readFrames_frames (by rwa [List.length_map]), List.map_map]
  rfl

/-- Under the condition no frame is lost or sent twice. -/
theorem delivers_of_oneFrame (data : Nat → Payload) {ms : List Move}
    (h : AllSteps (step data) (OneFrame data) {} ms) :
    AllStates (step data) (Delivers data) {} ms :=
  (allStates_of_invariant (fun _ _ _ => inv_step) inv_start h).mono fun _ hinv => hinv.delivers

/-- The payload `[7]`, and `[9]` for all other sends. -/
def twoPayloads (i : Nat) : Payload :=
  if i = 0 then ⟨[7], by decide⟩ else ⟨[9], by decide⟩

/-- Both lengths and then both payloads. The sidecar reads the frame `[1]`. -/
theorem interleaved_not_framed :
    ¬ AllStates (step twoPayloads) (Framed twoPayloads) {}
      [.call 0, .call 1, .write 0 4, .write 1 4, .write 0 1, .write 1 1] := by
  intro h
  have hlast := h.last rfl
  obtain ⟨ids, -, hread⟩ := hlast.reads 1
  have hframe : [1] ∈ ids.map fun i => (twoPayloads i).bytes := hread.subset (by decide)
  obtain ⟨i, -, hi⟩ := List.mem_map.mp hframe
  unfold twoPayloads at hi
  split at hi
  · cases hi
  · cases hi

end IpcTransport

end TruellmEngine.Bridge
