/-
  Resources that are acquired, used and released, as events of a trace.

  A resource is fresh, live or gone; it may need others to be live with it. `Sound` says that
  every event finds its resource as it should: a fresh one to acquire, a live one to use or to
  release, and what it needs alive. A trace is sound in pieces (`sound_append`), so each
  operation is checked on the events it adds. `Sound.release_once`: nothing is released twice.
-/
import Mathlib.Data.List.Basic

namespace TruellmEngine.Lib

variable {ρ : Type*} [DecidableEq ρ]

inductive LifeEvent (ρ : Type*) where
  | acquire (r : ρ)
  | use (r : ρ)
  | release (r : ρ)
  deriving DecidableEq

inductive LifeStatus where
  | fresh
  | live
  | gone
  deriving DecidableEq

namespace LifeEvent

def resource : LifeEvent ρ → ρ
  | .acquire r | .use r | .release r => r

/-- The status of the resource behind the event. -/
def leaves : LifeEvent ρ → LifeStatus
  | .acquire _ | .use _ => .live
  | .release _ => .gone

/-- The status that the event has to find. -/
def finds : LifeEvent ρ → LifeStatus
  | .acquire _ => .fresh
  | .use _ | .release _ => .live

def apply (st : ρ → LifeStatus) (e : LifeEvent ρ) : ρ → LifeStatus :=
  fun r => if r = e.resource then e.leaves else st r

end LifeEvent

/-- The statuses behind a trace. -/
def lifeAfter (st : ρ → LifeStatus) (es : List (LifeEvent ρ)) : ρ → LifeStatus :=
  es.foldl LifeEvent.apply st

/-- Each event finds its resource in the right status, and alive what it needs. -/
def Sound (needs : ρ → List ρ) : (ρ → LifeStatus) → List (LifeEvent ρ) → Prop
  | _, [] => True
  | st, e :: es =>
    (st e.resource = e.finds ∧ ∀ q ∈ needs e.resource, st q = .live) ∧ Sound needs (e.apply st) es

variable {needs : ρ → List ρ} {st : ρ → LifeStatus} {es fs : List (LifeEvent ρ)} {r : ρ}

@[simp] theorem lifeAfter_nil : lifeAfter st [] = st := rfl

@[simp] theorem lifeAfter_cons (e : LifeEvent ρ) :
    lifeAfter st (e :: es) = lifeAfter (e.apply st) es := rfl

theorem lifeAfter_append : lifeAfter st (es ++ fs) = lifeAfter (lifeAfter st es) fs :=
  List.foldl_append

theorem sound_append :
    Sound needs st (es ++ fs) ↔ Sound needs st es ∧ Sound needs (lifeAfter st es) fs := by
  induction es generalizing st with
  | nil => simp [Sound]
  | cons e es ih => simp only [List.cons_append, Sound, ih, lifeAfter_cons, and_assoc]

/-- A resource that no event is about keeps its status. -/
theorem lifeAfter_of_untouched (h : ∀ e ∈ es, e.resource ≠ r) : lifeAfter st es r = st r := by
  induction es generalizing st with
  | nil => rfl
  | cons e es ih =>
    rw [lifeAfter_cons, ih fun f hf => h f (List.mem_cons_of_mem e hf)]
    exact if_neg (h e List.mem_cons_self).symm

/-- The last event about a resource decides, here when all of them leave one status. -/
theorem lifeAfter_of_leaves {status : LifeStatus} (hst : st r = status ∨ ∃ e ∈ es, e.resource = r)
    (h : ∀ e ∈ es, e.resource = r → e.leaves = status) : lifeAfter st es r = status := by
  induction es generalizing st with
  | nil =>
    rcases hst with hst | ⟨e, he, -⟩
    · exact hst
    · cases he
  | cons e es ih =>
    rw [lifeAfter_cons]
    refine ih ?_ fun f hf => h f (List.mem_cons_of_mem e hf)
    by_cases he : e.resource = r
    · left
      rw [LifeEvent.apply, if_pos he.symm]
      exact h e List.mem_cons_self he
    · rw [LifeEvent.apply, if_neg (Ne.symm he)]
      rcases hst with hst | ⟨f, hf, hfr⟩
      · exact Or.inl hst
      · rcases List.mem_cons.mp hf with rfl | hf
        · exact absurd hfr he
        · exact Or.inr ⟨f, hf, hfr⟩

/-- Events of one kind on resources that are all different and in the right status. -/
theorem sound_of_distinct (hnd : (es.map LifeEvent.resource).Nodup)
    (hfind : ∀ e ∈ es, st e.resource = e.finds)
    (hneeds : ∀ e ∈ es, ∀ q ∈ needs e.resource, st q = .live)
    (hapart : ∀ e ∈ es, ∀ f ∈ es, e.resource ∉ needs f.resource) :
    Sound needs st es := by
  induction es generalizing st with
  | nil => trivial
  | cons e es ih =>
    rw [List.map_cons, List.nodup_cons] at hnd
    refine ⟨⟨hfind e List.mem_cons_self, hneeds e List.mem_cons_self⟩, ih hnd.2 ?_ ?_ ?_⟩
    · intro f hf
      have hne : f.resource ≠ e.resource := fun he =>
        hnd.1 (he ▸ List.mem_map_of_mem hf)
      rw [LifeEvent.apply, if_neg hne]
      exact hfind f (List.mem_cons_of_mem e hf)
    · intro f hf q hq
      have hne : q ≠ e.resource := fun he =>
        hapart e List.mem_cons_self f (List.mem_cons_of_mem e hf) (he ▸ hq)
      rw [LifeEvent.apply, if_neg hne]
      exact hneeds f (List.mem_cons_of_mem e hf) q hq
    · exact fun f hf g hg => hapart f (List.mem_cons_of_mem e hf) g (List.mem_cons_of_mem e hg)

/-- Uses of what is alive are sound and change no status. -/
theorem sound_uses (hev : ∀ e ∈ es, ∃ r, e = .use r ∧ st r = .live ∧
    ∀ q ∈ needs r, st q = .live) : Sound needs st es ∧ lifeAfter st es = st := by
  induction es with
  | nil => exact ⟨trivial, rfl⟩
  | cons e es ih =>
    obtain ⟨r, rfl, hr, hq⟩ := hev e List.mem_cons_self
    have hsame : (LifeEvent.use r).apply st = st := by
      funext q
      by_cases hqr : q = r
      · rw [hqr, hr]
        exact if_pos rfl
      · exact if_neg hqr
    obtain ⟨hsound, hafter⟩ := ih fun f hf => hev f (List.mem_cons_of_mem _ hf)
    refine ⟨⟨⟨hr, hq⟩, ?_⟩, ?_⟩
    · rw [hsame]
      exact hsound
    · rw [lifeAfter_cons, hsame]
      exact hafter

/-- A resource that is gone has no further events. -/
theorem Sound.gone (h : Sound needs st es) (hr : st r = .gone) : ∀ e ∈ es, e.resource ≠ r := by
  induction es generalizing st with
  | nil => simp
  | cons e es ih =>
    obtain ⟨⟨hfind, -⟩, hrest⟩ := h
    have hne : e.resource ≠ r := by
      intro he
      rw [he, hr] at hfind
      cases e <;> cases hfind
    have hrest := ih hrest ((if_neg hne.symm).trans hr)
    intro f hf
    rcases List.mem_cons.mp hf with rfl | hf
    · exact hne
    · exact hrest f hf

/-- In a sound trace no resource is released twice. -/
theorem Sound.release_once (h : Sound needs st es) (r : ρ) : es.count (.release r) ≤ 1 := by
  induction es generalizing st with
  | nil => simp
  | cons e es ih =>
    obtain ⟨-, hrest⟩ := h
    by_cases he : e = .release r
    · subst he
      have hzero : es.count (.release r) = 0 :=
        List.count_eq_zero.mpr fun hm => hrest.gone (if_pos rfl) _ hm rfl
      exact Nat.le_of_eq (by rw [List.count_cons_self, hzero])
    · rw [List.count_cons_of_ne he]
      exact ih hrest

/-- A resource that was fresh and is gone was released, so exactly once. -/
theorem released_of_gone (hst : st r ≠ .gone) (h : lifeAfter st es r = .gone) :
    .release r ∈ es := by
  by_contra hno
  induction es generalizing st with
  | nil => exact hst h
  | cons e es ih =>
    rw [lifeAfter_cons] at h
    refine ih ?_ h fun hm => hno (List.mem_cons_of_mem e hm)
    by_cases he : r = e.resource
    · rw [LifeEvent.apply, if_pos he]
      cases e with
      | release q => exact absurd (List.mem_cons.mpr (Or.inl (by rw [he]; rfl))) hno
      | acquire q => exact fun hg => LifeStatus.noConfusion hg
      | use q => exact fun hg => LifeStatus.noConfusion hg
    · rw [LifeEvent.apply, if_neg he]
      exact hst

end TruellmEngine.Lib
