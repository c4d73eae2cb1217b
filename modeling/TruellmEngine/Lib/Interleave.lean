/-
  Threads over a shared state, interleaved step by step, and the unwinding rule that a
  thread does not notice the others.

  `act i` is one atomic step of thread `i`: from the shared state and the thread's own state
  to the next ones. `alone act i` is the thread running on its own. `AsAlone` says that
  every thread is where it would be alone after the same number of its own steps.

  The rule asks for a relation `Agree i s t l` between the shared state of the interleaving,
  that of thread `i` alone, and the thread's state: a step of the thread keeps it and does
  the same in both (`own`), and a step of another thread keeps it (`other`).
-/
import TruellmEngine.Lib.Run
import Mathlib.Logic.Function.Basic

namespace TruellmEngine.Lib

/-- The shared state, the state of each thread, and how many steps each has taken. -/
structure Threads (ι S L : Type*) where
  shared : S
  locals : ι → L
  taken : ι → Nat

namespace Threads

variable {ι S L : Type*}

def start (s : S) (l : ι → L) : Threads ι S L := ⟨s, l, fun _ => 0⟩

/-- Thread `i` on its own, after `n` steps. -/
def alone (act : ι → S → L → S × L) (i : ι) (s : S) (l : L) : Nat → S × L
  | 0 => (s, l)
  | n + 1 => act i (alone act i s l n).1 (alone act i s l n).2

variable [DecidableEq ι] (act : ι → S → L → S × L)

def next (w : Threads ι S L) (i : ι) : Threads ι S L where
  shared := (act i w.shared (w.locals i)).1
  locals := Function.update w.locals i (act i w.shared (w.locals i)).2
  taken := Function.update w.taken i (w.taken i + 1)

/-- Any thread may take the next step. -/
def step (w : Threads ι S L) (i : ι) : Option (Threads ι S L) := some (w.next act i)

/-- Every thread is where it would be alone, after the same number of its own steps. -/
def AsAlone (s : S) (l : ι → L) (w : Threads ι S L) : Prop :=
  ∀ i, w.locals i = (alone act i s (l i) (w.taken i)).2

/-- The premises of the rule, for an invariant of the interleaving and the steps in `ok`. -/
structure Unwinding (Inv : Threads ι S L → Prop) (ok : Threads ι S L → ι → Prop)
    (Agree : ι → S → S → L → Prop) : Prop where
  inv : ∀ w i, Inv w → (∀ j, ∃ t, Agree j w.shared t (w.locals j)) → ok w i → Inv (w.next act i)
  own : ∀ w i t, Inv w → ok w i → Agree i w.shared t (w.locals i) →
    (act i t (w.locals i)).2 = (act i w.shared (w.locals i)).2 ∧
      Agree i (act i w.shared (w.locals i)).1 (act i t (w.locals i)).1
        (act i w.shared (w.locals i)).2
  other : ∀ w i j t, Inv w → ok w i → j ≠ i → Agree i w.shared t (w.locals i) →
    ∀ u, Agree j w.shared u (w.locals j) → Agree j (act i w.shared (w.locals i)).1 u (w.locals j)

variable {act} {Inv : Threads ι S L → Prop} {ok : Threads ι S L → ι → Prop}
  {Agree : ι → S → S → L → Prop} {s₀ : S} {l₀ : ι → L}

/-- What holds along a run of steps in `ok`: the invariant, and that each thread and its
    shared state agree with the thread alone. -/
def Follows (act : ι → S → L → S × L) (Inv : Threads ι S L → Prop)
    (Agree : ι → S → S → L → Prop) (s₀ : S) (l₀ : ι → L) (w : Threads ι S L) : Prop :=
  Inv w ∧ ∀ i, w.locals i = (alone act i s₀ (l₀ i) (w.taken i)).2 ∧
    Agree i w.shared (alone act i s₀ (l₀ i) (w.taken i)).1 (w.locals i)

theorem Unwinding.follows_next (h : Unwinding act Inv ok Agree) {w : Threads ι S L} {i : ι}
    (hw : Follows act Inv Agree s₀ l₀ w) (hok : ok w i) :
    Follows act Inv Agree s₀ l₀ (w.next act i) := by
  obtain ⟨hinv, hall⟩ := hw
  refine ⟨h.inv w i hinv (fun j => ⟨_, (hall j).2⟩) hok, ?_⟩
  intro j
  by_cases hj : j = i
  · subst hj
    obtain ⟨hlocal, hagree⟩ := hall j
    obtain ⟨hsame, hnext⟩ := h.own w j _ hinv hok hagree
    have htaken : (w.next act j).taken j = w.taken j + 1 := by simp [next]
    have hnow : (w.next act j).locals j = (act j w.shared (w.locals j)).2 := by simp [next]
    rw [htaken, hnow]
    unfold alone
    rw [← hlocal]
    exact ⟨hsame.symm, hnext⟩
  · obtain ⟨hlocal, hagree⟩ := hall j
    have htaken : (w.next act i).taken j = w.taken j := by simp [next, hj]
    have hnow : (w.next act i).locals j = w.locals j := by simp [next, hj]
    rw [htaken, hnow]
    exact ⟨hlocal, h.other w i j _ hinv hok hj (hall i).2 _ hagree⟩

section

variable (h : Unwinding act Inv ok Agree)
  (hstart : Follows act Inv Agree s₀ l₀ (start s₀ l₀)) {is : List ι}
  (hok : AllSteps (step act) ok (start s₀ l₀) is)

include h hstart hok

/-- Along a run whose steps are all in `ok`, every thread is always where it would be
    alone. -/
theorem Unwinding.asAlone : AllStates (step act) (AsAlone act s₀ l₀) (start s₀ l₀) is := by
  have hfollows := allStates_of_invariant (I := Follows act Inv Agree s₀ l₀)
    (fun w i w' hw hi hst => by
      cases hst
      exact h.follows_next hw hi) hstart hok
  exact hfollows.mono fun w hw i => (hw.2 i).1

/-- A property of a step that follows from the invariant and the agreement. -/
theorem Unwinding.allSteps {good : Threads ι S L → ι → Prop}
    (hgood : ∀ w i, Inv w → (∀ j, ∃ t, Agree j w.shared t (w.locals j)) → ok w i → good w i) :
    AllSteps (step act) good (start s₀ l₀) is := by
  refine allSteps_of_invariant (I := Follows act Inv Agree s₀ l₀) ?_ ?_ hstart hok
  · intro w i w' hw hi hst
    cases hst
    exact h.follows_next hw hi
  · intro w i w' hw hi _
    exact hgood w i hw.1 (fun j => ⟨_, (hw.2 j).2⟩) hi

end

end Threads

end TruellmEngine.Lib
