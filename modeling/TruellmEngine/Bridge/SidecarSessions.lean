/-
  The sessions of the sidecars. They lie in a `std::vector`, and the callbacks of a process
  hold a pointer to the element that `emplace_back` has made for its session. When a later
  session makes the vector grow, all elements move, and the pointers held so far point to
  freed memory.

  `SidecarSessions` is the vector and the pointers, a process for each. `find?` is a callback's look
  at its session: `none` where the pointer is followed in vain.
-/
import TruellmEngine.Lib.MovingVector

namespace TruellmEngine.Bridge

open Lib

inductive SidecarRuntime where
  | python
  | javaScript
deriving DecidableEq

/-- The fields of a session that its callbacks and the restarts read. `client` is the number
    of the process that the client is connected to. -/
structure SidecarSession where
  pluginDir : String
  runtime : SidecarRuntime
  client : Option Nat := none
  ready : Bool := true
  restartCount : Nat := 0
  shuttingDown : Bool := false

structure SidecarSessions where
  vector : MovingVector SidecarSession
  /-- The pointers that the callbacks hold, by the order of the processes. -/
  callbacks : List Pointer
  issued : ∀ p ∈ callbacks, vector.Issued p
  apart : callbacks.Nodup

/-- An element behind one more is an old one, or that one. -/
theorem of_getElem?_concat {α : Type} {xs : List α} {x y : α} {i : Nat}
    (h : (xs ++ [x])[i]? = some y) : xs[i]? = some y ∨ i = xs.length ∧ x = y := by
  rw [List.getElem?_append] at h
  split at h
  · exact Or.inl h
  · rw [List.getElem?_singleton] at h
    split at h
    · cases h
      exact Or.inr ⟨by omega, rfl⟩
    · cases h

namespace SidecarSessions

def empty : SidecarSessions := ⟨{}, [], fun _ hp => absurd hp List.not_mem_nil, List.nodup_nil⟩

variable (s : SidecarSessions) (i j : Nat) (sess : SidecarSession) (grow : Nat → Nat)

/-- The next session that is started needs no new storage. -/
def HasRoom : Prop := s.vector.HasRoom

instance : Decidable s.HasRoom := inferInstanceAs (Decidable s.vector.HasRoom)

/-- What the callbacks of process `i` find. -/
def find? : Option SidecarSession := s.callbacks[i]?.bind s.vector.get?

/-- The emplacement of a session and the start of its process. -/
def start (launched : Bool) : SidecarSessions :=
  let emplaced := s.vector.emplaceBack sess grow
  if launched then
    { vector := emplaced.2
      callbacks := s.callbacks ++ [emplaced.1]
      issued := by
        intro p hp
        rcases List.mem_append.mp hp with hp | hp
        · exact (s.issued p hp).emplaceBack
        · rw [List.mem_singleton.mp hp]
          exact MovingVector.issued_emplaceBack
      apart := by
        refine List.nodup_append.mpr ⟨s.apart, List.pairwise_singleton _ _, ?_⟩
        intro p hp q hq
        rw [List.mem_singleton.mp hq]
        exact (s.issued p hp).ne_emplaceBack }
  else
    { s with
      vector := emplaced.2.popBack
      issued := fun p hp => (s.issued p hp).emplaceBack_popBack }

/-- A change that a callback of process `i` makes to its session. -/
def update : SidecarSessions :=
  match s.callbacks[i]? with
  | none => s
  | some q => { s with
      vector := s.vector.set q sess
      issued := fun p hp => (s.issued p hp).set }

/-- The loop of the destructor over all sessions. -/
def markShuttingDown : SidecarSessions :=
  { s with
    vector := s.vector.map ({ · with shuttingDown := true })
    issued := fun p hp => (s.issued p hp).map _ }

def clear : SidecarSessions :=
  { s with
    vector := s.vector.clear
    issued := fun p hp => (s.issued p hp).clear }

variable {s i j sess grow}

@[simp] theorem callbacks_update : (s.update i sess).callbacks = s.callbacks := by
  unfold update
  split <;> rfl

@[simp] theorem callbacks_markShuttingDown : s.markShuttingDown.callbacks = s.callbacks := rfl

@[simp] theorem callbacks_clear : s.clear.callbacks = s.callbacks := rfl

theorem length_start (launched : Bool) : (s.start sess grow launched).callbacks.length =
    s.callbacks.length + launched.toNat := by
  unfold start
  cases launched with
  | true => exact List.length_append
  | false => rfl

/-- A start makes the older callbacks look in vain if it makes the vector grow. -/
theorem find?_start (hi : i < s.callbacks.length) (launched : Bool) :
    (s.start sess grow launched).find? i = if s.HasRoom then s.find? i else none := by
  obtain ⟨p, hp⟩ : ∃ p, s.callbacks[i]? = some p := ⟨_, List.getElem?_eq_getElem hi⟩
  have hissued := s.issued p (List.mem_of_getElem? hp)
  have hfind : s.find? i = s.vector.get? p := by
    unfold find?
    rw [hp]
    rfl
  rw [hfind]
  unfold start find?
  cases launched with
  | true =>
    rw [if_pos rfl, List.getElem?_append_left hi, hp]
    exact MovingVector.get?_emplaceBack hissued
  | false =>
    rw [if_neg Bool.false_ne_true, hp]
    exact MovingVector.get?_emplaceBack_popBack hissued

theorem find?_start_self : (s.start sess grow true).find? s.callbacks.length = some sess := by
  unfold start find?
  rw [if_pos rfl, List.getElem?_concat_length]
  exact MovingVector.get?_emplaceBack_self

theorem find?_update_self : (s.update i sess).find? i = (s.find? i).map fun _ => sess := by
  unfold find?
  rw [callbacks_update]
  cases hp : s.callbacks[i]? with
  | none => rfl
  | some p =>
    unfold update
    rw [hp]
    exact MovingVector.get?_set_self

theorem hasRoom_update : (s.update i sess).HasRoom ↔ s.HasRoom := by
  unfold update
  split
  · exact Iff.rfl
  · exact MovingVector.hasRoom_set

/-- Two processes have different sessions. -/
theorem find?_update_ne (h : i ≠ j) : (s.update i sess).find? j = s.find? j := by
  unfold find?
  rw [callbacks_update]
  unfold update
  split
  · rfl
  · rename_i q hq
    cases hp : s.callbacks[j]? with
    | none => rfl
    | some p =>
      refine MovingVector.get?_set_ne ?_
      rintro rfl
      have hlt : i < s.callbacks.length := (List.getElem?_eq_some_iff.mp hq).1
      exact h ((List.getElem?_inj hlt s.apart).mp (hq.trans hp.symm))

/-- A restart changes its session and starts another: it finds the first one again if the other
    has found room. -/
theorem find?_update_start {old new : SidecarSession} (hold : s.find? i = some old)
    (launched : Bool) : ((s.update i sess).start new grow launched).find? i =
      if s.HasRoom then some sess else none := by
  obtain ⟨p, hp, -⟩ := Option.bind_eq_some_iff.mp hold
  have hlt : i < (s.update i sess).callbacks.length := by
    rw [callbacks_update]
    exact (List.getElem?_eq_some_iff.mp hp).1
  rw [find?_start hlt, find?_update_self, hold]
  simp only [hasRoom_update, Option.map_some]

theorem find?_markShuttingDown :
    s.markShuttingDown.find? i = (s.find? i).map ({ · with shuttingDown := true }) := by
  unfold find? markShuttingDown
  cases s.callbacks[i]? with
  | none => rfl
  | some p => exact MovingVector.get?_map _

theorem find?_clear : s.clear.find? i = none := by
  unfold find?
  rw [callbacks_clear]
  cases hp : s.callbacks[i]? with
  | none => rfl
  | some p => exact MovingVector.get?_clear (s.issued p (List.mem_of_getElem? hp))

end SidecarSessions

end TruellmEngine.Bridge
