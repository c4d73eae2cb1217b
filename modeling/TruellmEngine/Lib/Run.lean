/-
  Runs of a deterministic labelled step function, and the rules that carry a fact about
  one step to a fact about a whole run.

  A system is `step : σ → α → Option σ`: `none` when the label is not enabled. The
  environment's choices (inputs, results of outside calls, scheduling) are labels, so
  a statement about every list of labels is a statement about every behaviour.

  * `AllStates P s as`: every state the run of `as` from `s` passes through has `P`.
  * `AllSteps ok s as`: every step the run takes meets `ok` in the state it is taken in.
  * `allStates_of_invariant`: an invariant kept by every step that meets `ok` holds in
    every state of a run whose steps meet `ok`.
  * `allStates_of_kept`: the same for an invariant that every step keeps.
  * `allStates_iff_allSteps`: if moreover a step outside `ok` breaks `P`, then `P` holds
    along a run exactly when every step of the run meets `ok`.
  * `allSteps_of_doom`: the same direction where a step outside `ok` breaks `P` only in
    the end, for runs that come to an end.
-/
import Mathlib.Data.List.Basic

namespace TruellmEngine.Lib

variable {σ α : Type*} (step : σ → α → Option σ)

/-- The state after the labels `as`, or `none` if one of them is not enabled. -/
def run : σ → List α → Option σ
  | s, [] => some s
  | s, a :: as => (step s a).bind fun t => run t as

/-- Every state on the run of `as` from `s`, both ends included, has `P`. -/
def AllStates (P : σ → Prop) : σ → List α → Prop
  | s, [] => P s
  | s, a :: as => P s ∧ ∀ t, step s a = some t → AllStates P t as

/-- Every enabled step on the run of `as` from `s` meets `ok`. -/
def AllSteps (ok : σ → α → Prop) : σ → List α → Prop
  | _, [] => True
  | s, a :: as => ∀ t, step s a = some t → ok s a ∧ AllSteps ok t as

instance decidableAllSteps {ok : σ → α → Prop} [∀ s a, Decidable (ok s a)] :
    (s : σ) → (as : List α) → Decidable (AllSteps step ok s as)
  | _, [] => .isTrue trivial
  | s, a :: as =>
    match h : step s a with
    | none => .isTrue fun t ht => by
        rw [h] at ht
        cases ht
    | some u =>
      have : Decidable (AllSteps step ok u as) := decidableAllSteps u as
      decidable_of_iff (ok s a ∧ AllSteps step ok u as) (by
        constructor
        · intro hu t ht
          rw [h] at ht
          cases ht
          exact hu
        · intro hall
          exact hall u h)

variable {step}

theorem run_cons {s u : σ} {a : α} {as : List α} :
    run step s (a :: as) = some u ↔ ∃ t, step s a = some t ∧ run step t as = some u :=
  Option.bind_eq_some_iff

theorem AllStates.head {P : σ → Prop} {s : σ} {as : List α} (h : AllStates step P s as) :
    P s := by
  cases as with
  | nil => exact h
  | cons a as => exact h.1

/-- `AllStates` speaks about every prefix of the run. -/
theorem allStates_iff_prefix {P : σ → Prop} {s : σ} {as : List α} :
    AllStates step P s as ↔ ∀ pre t, pre <+: as → run step s pre = some t → P t := by
  induction as generalizing s with
  | nil =>
    constructor
    · intro h pre t hp hr
      rw [List.prefix_nil.mp hp] at hr
      cases hr
      exact h
    · intro h
      exact h [] s (List.prefix_refl _) rfl
  | cons a as ih =>
    constructor
    · rintro ⟨hs, hstep⟩ pre t hp hr
      cases pre with
      | nil =>
        cases hr
        exact hs
      | cons b pre =>
        obtain ⟨rfl, hp'⟩ := List.cons_prefix_cons.mp hp
        obtain ⟨v, hv, hr'⟩ := run_cons.mp hr
        exact ih.mp (hstep v hv) pre t hp' hr'
    · intro h
      refine ⟨h [] s (List.nil_prefix) rfl, ?_⟩
      intro v hv
      refine ih.mpr ?_
      intro pre t hp hr
      exact h (a :: pre) t (List.cons_prefix_cons.mpr ⟨rfl, hp⟩) (run_cons.mpr ⟨v, hv, hr⟩)

theorem AllStates.mono {P Q : σ → Prop} (hPQ : ∀ s, P s → Q s) {s : σ} {as : List α}
    (h : AllStates step P s as) : AllStates step Q s as := by
  induction as generalizing s with
  | nil => exact hPQ s h
  | cons a as ih => exact ⟨hPQ s h.1, fun t ht => ih (h.2 t ht)⟩

theorem AllSteps.last {ok : σ → α → Prop} {s t u : σ} {as : List α} {a : α}
    (h : AllSteps step ok s (as ++ [a])) (hr : run step s as = some t)
    (ha : step t a = some u) : ok t a := by
  induction as generalizing s with
  | nil =>
    cases hr
    exact (h u ha).1
  | cons b as ih =>
    obtain ⟨v, hv, hr'⟩ := run_cons.mp hr
    exact ih (h v hv).2 hr'

/-- A condition on the labels alone is met by every step of the run. -/
theorem allSteps_of_labels {C : α → Prop} {s : σ} {as : List α} (h : ∀ a ∈ as, C a) :
    AllSteps step (fun _ a => C a) s as := by
  induction as generalizing s with
  | nil => trivial
  | cons a as ih =>
    exact fun t _ => ⟨h a List.mem_cons_self, ih fun b hb => h b (List.mem_cons_of_mem a hb)⟩

/-- What no step changes is the same behind a run. -/
theorem run_keeps {β : Type*} {f : σ → β} (hstep : ∀ s a t, step s a = some t → f t = f s)
    {s t : σ} {as : List α} (hr : run step s as = some t) : f t = f s := by
  induction as generalizing s with
  | nil =>
    cases hr
    rfl
  | cons a as ih =>
    obtain ⟨v, hv, hr'⟩ := run_cons.mp hr
    exact (ih hr').trans (hstep s a v hv)

/-- Steps that make a rank less come to an end. -/
theorem exists_run_ends {a : α} {rank : σ → Nat}
    (hstep : ∀ s t, step s a = some t → rank t < rank s) (s : σ) :
    ∃ n t, run step s (List.replicate n a) = some t ∧ step t a = none := by
  induction hrank : rank s using Nat.strongRecOn generalizing s with
  | _ r ih =>
    cases hs : step s a with
    | none => exact ⟨0, s, rfl, hs⟩
    | some t =>
      obtain ⟨n, u, hr, hu⟩ := ih (rank t) (hrank ▸ hstep s t hs) t rfl
      exact ⟨n + 1, u, run_cons.mpr ⟨t, hs, hr⟩, hu⟩

/-- Where every step of the run pays a tick out of a rank, the run has at most as many
    ticks as the rank it starts with. -/
theorem countP_add_rank_le (tick : α → Bool) {I : σ → Prop} {ok : σ → α → Prop}
    {rank : σ → Nat}
    (hkeep : ∀ s a t, I s → ok s a → step s a = some t → I t)
    (hpay : ∀ s a t, I s → ok s a → step s a = some t →
      rank t + (if tick a then 1 else 0) ≤ rank s)
    {s t : σ} {as : List α} (hs : I s) (hok : AllSteps step ok s as)
    (hr : run step s as = some t) : as.countP tick + rank t ≤ rank s := by
  induction as generalizing s with
  | nil =>
    cases hr
    simp
  | cons a as ih =>
    obtain ⟨v, hv, hr'⟩ := run_cons.mp hr
    obtain ⟨h1, h2⟩ := hok v hv
    have hrest := ih (hkeep s a v hs h1 hv) h2 hr'
    have hfirst := hpay s a v hs h1 hv
    rw [List.countP_cons]
    omega

/-- Where a debt is never made anew and every step pays its tick out of a rank while the
    debt stands, a run that leaves the debt standing has at most as many ticks as the rank
    it starts with. -/
theorem debt_ticks_le (tick : α → Bool) {I D : σ → Prop} {ok : σ → α → Prop} {rank : σ → Nat}
    (hkeep : ∀ s a t, I s → ok s a → step s a = some t → I t)
    (hold : ∀ s a t, I s → step s a = some t → D t → D s)
    (hpay : ∀ s a t, I s → ok s a → D s → step s a = some t →
      rank t + (if tick a then 1 else 0) ≤ rank s)
    {s t : σ} {as : List α} (hs : I s) (hok : AllSteps step ok s as)
    (hr : run step s as = some t) (hd : D t) : D s ∧ as.countP tick + rank t ≤ rank s := by
  induction as generalizing s with
  | nil =>
    cases hr
    exact ⟨hd, by simp⟩
  | cons a as ih =>
    obtain ⟨v, hv, hr'⟩ := run_cons.mp hr
    obtain ⟨h1, h2⟩ := hok v hv
    obtain ⟨hdv, hrest⟩ := ih (hkeep s a v hs h1 hv) h2 hr'
    have hds := hold s a v hs hv hdv
    have hfirst := hpay s a v hs h1 hds hv
    rw [List.countP_cons]
    exact ⟨hds, by omega⟩

/-- Along any sequence of labels that make a rank less, the run leads out of `P`. -/
theorem exists_run_leaves {I P : σ → Prop} {C : α → Prop} {rank : σ → Nat}
    (hstep : ∀ s a, C a → I s → P s → ∃ t, step s a = some t ∧ I t ∧ rank t < rank s)
    {s : σ} (hs : I s) (as : Nat → α) (has : ∀ i, C (as i)) :
    ∃ n t, AllSteps step (fun u _ => P u) s ((List.range n).map as) ∧
      run step s ((List.range n).map as) = some t ∧ I t ∧ ¬ P t := by
  induction hrank : rank s using Nat.strongRecOn generalizing s as with
  | _ r ih =>
    by_cases hP : P s
    · obtain ⟨v, hv, hIv, hlt⟩ := hstep s (as 0) (has 0) hs hP
      obtain ⟨n, t, hall, hrun, hrest⟩ :=
        ih (rank v) (hrank ▸ hlt) hIv (fun i => as (i + 1)) (fun i => has (i + 1)) rfl
      have hcons : (List.range (n + 1)).map as =
          as 0 :: (List.range n).map fun i => as (i + 1) := by
        rw [List.range_succ_eq_map, List.map_cons, List.map_map]
        rfl
      refine ⟨n + 1, t, ?_, ?_, hrest⟩
      · rw [hcons]
        intro u hu
        rw [hv] at hu
        cases hu
        exact ⟨hP, hall⟩
      · rw [hcons]
        exact run_cons.mpr ⟨v, hv, hrun⟩
    · exact ⟨0, s, trivial, rfl, hs, hP⟩

/-! ## The invariant rules -/

/-- An invariant kept by every step that meets `ok` holds in every state of a run whose
    steps all meet `ok`. -/
theorem allStates_of_invariant {I : σ → Prop} {ok : σ → α → Prop}
    (hstep : ∀ s a t, I s → ok s a → step s a = some t → I t) {s : σ} {as : List α}
    (hs : I s) (hok : AllSteps step ok s as) : AllStates step I s as := by
  induction as generalizing s with
  | nil => exact hs
  | cons a as ih =>
    refine ⟨hs, ?_⟩
    intro t ht
    obtain ⟨h1, h2⟩ := hok t ht
    exact ih (hstep s a t hs h1 ht) h2

/-- An invariant that every step keeps holds in every state of every run. -/
theorem allStates_of_kept {I : σ → Prop} (hstep : ∀ s a t, I s → step s a = some t → I t)
    {s : σ} (hs : I s) (as : List α) : AllStates step I s as := by
  induction as generalizing s with
  | nil => exact hs
  | cons a as ih => exact ⟨hs, fun t ht => ih (hstep s a t hs ht)⟩

/-- What an invariant gives of each step, along a run whose steps all meet `ok`. -/
theorem allSteps_of_invariant {I : σ → Prop} {ok good : σ → α → Prop}
    (hstep : ∀ s a t, I s → ok s a → step s a = some t → I t)
    (hgood : ∀ s a t, I s → ok s a → step s a = some t → good s a) {s : σ} {as : List α}
    (hs : I s) (hok : AllSteps step ok s as) : AllSteps step good s as := by
  induction as generalizing s with
  | nil => trivial
  | cons a as ih =>
    intro t ht
    obtain ⟨h1, h2⟩ := hok t ht
    exact ⟨hgood s a t hs h1 ht, ih (hstep s a t hs h1 ht) h2⟩

/-- Two conditions on steps that an invariant of all steps makes one. -/
theorem allSteps_congr {I : σ → Prop} {ok good : σ → α → Prop}
    (hstep : ∀ s a t, I s → step s a = some t → I t)
    (heq : ∀ s a, I s → (ok s a ↔ good s a)) {s : σ} (hs : I s) (as : List α) :
    AllSteps step ok s as ↔ AllSteps step good s as := by
  constructor
  · intro h
    exact allSteps_of_invariant (fun s a t hs _ => hstep s a t hs)
      (fun s a t hs hok _ => (heq s a hs).mp hok) hs h
  · intro h
    exact allSteps_of_invariant (fun s a t hs _ => hstep s a t hs)
      (fun s a t hs hgood _ => (heq s a hs).mpr hgood) hs h

theorem AllStates.last {P : σ → Prop} {s t : σ} {as : List α} (h : AllStates step P s as)
    (hr : run step s as = some t) : P t :=
  allStates_iff_prefix.mp h as t (List.prefix_refl as) hr

/-- The exact rule. `ok` keeps the invariant `I`, `I` gives `P`, and a step outside `ok`
    leaves a state without `P`: then `P` holds along a run iff all its steps meet `ok`. -/
theorem allStates_iff_allSteps {I P : σ → Prop} {ok : σ → α → Prop}
    (hP : ∀ s, I s → P s)
    (hstep : ∀ s a t, I s → ok s a → step s a = some t → I t)
    (hbad : ∀ s a t, I s → ¬ ok s a → step s a = some t → ¬ P t)
    {s : σ} (hs : I s) (as : List α) :
    AllStates step P s as ↔ AllSteps step ok s as := by
  constructor
  · intro h
    induction as generalizing s with
    | nil => trivial
    | cons a as ih =>
      intro t ht
      have hok : ok s a := by
        by_contra hn
        exact hbad s a t hs hn ht (h.2 t ht).head
      exact ⟨hok, ih (hstep s a t hs hok ht) (h.2 t ht)⟩
  · intro h
    exact (allStates_of_invariant hstep hs h).mono hP

/-- A step outside `ok` breaks `P` at once or dooms the state, and a doomed state stays so
    until `P` is broken. Then a run along which `P` holds, to a state that is not doomed,
    has no such step. -/
theorem allSteps_of_doom {I P D : σ → Prop} {ok : σ → α → Prop}
    (hstep : ∀ s a t, I s → ok s a → step s a = some t → I t)
    (hbad : ∀ s a t, I s → ¬ ok s a → step s a = some t → ¬ P t ∨ D t)
    (hdoom : ∀ s a t, D s → step s a = some t → ¬ P t ∨ D t)
    {s u : σ} {as : List α} (hs : I s) (hrun : run step s as = some u) (hu : ¬ D u)
    (hP : AllStates step P s as) : AllSteps step ok s as := by
  have hdoomed : ∀ (as : List α) (s : σ), D s → run step s as = some u →
      ¬ AllStates step P s as := by
    intro as
    induction as with
    | nil =>
      intro s hd hrun _
      cases hrun
      exact hu hd
    | cons a as ih =>
      intro s hd hrun hP
      obtain ⟨t, ht, hrun⟩ := run_cons.mp hrun
      rcases hdoom s a t hd ht with hnP | hd
      · exact hnP (hP.2 t ht).head
      · exact ih t hd hrun (hP.2 t ht)
  induction as generalizing s with
  | nil => trivial
  | cons a as ih =>
    intro t ht
    obtain ⟨v, hv, hrun⟩ := run_cons.mp hrun
    rw [ht] at hv
    cases hv
    have hok : ok s a := by
      by_contra hn
      rcases hbad s a t hs hn ht with hnP | hd
      · exact hnP (hP.2 t ht).head
      · exact hdoomed as t hd hrun (hP.2 t ht)
    exact ⟨hok, ih (hstep s a t hs hok ht) hrun (hP.2 t ht)⟩

end TruellmEngine.Lib
