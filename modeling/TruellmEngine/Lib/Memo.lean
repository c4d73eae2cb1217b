/-
  A table that keeps what was found, under a name of the question.

  A question is answered from the table once something is kept under its name, so two questions
  with one name share an answer. The answer is what there is to find as long as the table
  `Fits` the question; `fits_remember` is what one answered question does to that.
-/
import Mathlib.Logic.Function.Basic

namespace TruellmEngine.Lib

variable {ι κ ν : Type*} [DecidableEq κ]

/-- `emplace`: nothing happens to a name that is there already. -/
def emplace (k : κ) (v : ν) (table : κ → Option ν) : κ → Option ν :=
  Function.update table k (some ((table k).getD v))

theorem emplace_self (k : κ) (v : ν) (table : κ → Option ν) :
    emplace k v table k = some ((table k).getD v) :=
  Function.update_self k _ table

theorem emplace_of_ne {k k' : κ} (h : k' ≠ k) (v : ν) (table : κ → Option ν) :
    emplace k v table k' = table k' :=
  Function.update_of_ne h _ table

variable (name : ι → κ) (find : ι → Option ν)

/-- The table after a question; what is not found is not kept. -/
def remember (i : ι) (table : κ → Option ν) : κ → Option ν :=
  (find i).elim table fun v => emplace (name i) v table

/-- The answer to a question. -/
def answered (i : ι) (table : κ → Option ν) : Option ν :=
  (find i).bind fun v => emplace (name i) v table (name i)

/-- What is kept under the name of the question is what there is to find. -/
def Fits (table : κ → Option ν) (i : ι) : Prop :=
  ∀ v ∈ find i, ∀ w ∈ table (name i), w = v

variable {name find}

theorem answered_eq_iff {table : κ → Option ν} {i : ι} :
    answered name find i table = find i ↔ Fits name find table i := by
  unfold answered Fits
  cases find i with
  | none => exact ⟨fun _ v hv => absurd hv (Option.not_mem_none v), fun _ => rfl⟩
  | some v =>
    rw [Option.bind_some, emplace_self]
    cases table (name i) with
    | none => exact ⟨fun _ v _ w hw => absurd hw (Option.not_mem_none w), fun _ => rfl⟩
    | some w =>
      constructor
      · intro h v' hv w' hw
        rw [← Option.mem_some_iff.mp hv, ← Option.mem_some_iff.mp hw]
        exact Option.some.inj h
      · exact fun h => congrArg some (h v rfl w rfl)

theorem remember_of_none {i : ι} (h : find i = none) (table : κ → Option ν) :
    remember name find i table = table := by
  unfold remember
  rw [h]
  rfl

/-- Under its own name a question that fits leaves what it has found. -/
theorem remember_self {table : κ → Option ν} {i : ι} {v : ν} (hfits : Fits name find table i)
    (h : find i = some v) : remember name find i table (name i) = some v := by
  have hanswer := answered_eq_iff.mpr hfits
  unfold answered at hanswer
  unfold remember
  rw [h] at hanswer ⊢
  exact hanswer

theorem remember_of_ne {i : ι} {k : κ} (h : k ≠ name i) (table : κ → Option ν) :
    remember name find i table k = table k := by
  unfold remember
  cases find i with
  | none => rfl
  | some v => exact emplace_of_ne h v table

/-- The table keeps fitting just the questions that find the same under the same name. -/
theorem fits_remember {table : κ → Option ν} {i : ι} (hfits : Fits name find table i) (j : ι) :
    Fits name find (remember name find i table) j ↔
      Fits name find table j ∧
        (name i = name j → ∀ v ∈ find i, ∀ w ∈ find j, v = w) := by
  by_cases hname : name i = name j
  · cases hi : find i with
    | none =>
      rw [remember_of_none hi]
      exact ⟨fun h => ⟨h, fun _ v hv => absurd hv (Option.not_mem_none v)⟩, And.left⟩
    | some v =>
      have hself := remember_self hfits hi
      unfold Fits at hfits ⊢
      rw [hname] at hself hfits
      rw [hself]
      constructor
      · intro h
        have hsame : ∀ w ∈ find j, v = w := fun w hw => h w hw v rfl
        refine ⟨fun w hw u hu => (hfits v hi u hu).trans (hsame w hw), ?_⟩
        intro _ v' hv w hw
        exact Option.mem_some_iff.mp hv ▸ hsame w hw
      · rintro ⟨-, hsame⟩ w hw v' hv
        exact hsame hname v' hv w hw
  · unfold Fits
    rw [remember_of_ne (Ne.symm hname)]
    exact ⟨fun h => ⟨h, fun hsame => absurd hsame hname⟩, And.left⟩

/-- Nothing is kept under a name just if nothing was, and nothing is found under it. -/
theorem remember_eq_none {table : κ → Option ν} {i : ι} {k : κ} :
    remember name find i table k = none ↔
      table k = none ∧ (name i = k → find i = none) := by
  cases hi : find i with
  | none =>
    rw [remember_of_none hi]
    exact ⟨fun h => ⟨h, fun _ => rfl⟩, And.left⟩
  | some v =>
    by_cases hname : name i = k
    · subst hname
      unfold remember
      rw [hi]
      constructor
      · intro h
        rw [Option.elim_some, emplace_self] at h
        cases h
      · exact fun h => absurd (h.2 rfl) (Option.some_ne_none v)
    · rw [remember_of_ne (Ne.symm hname)]
      exact ⟨fun h => ⟨h, fun hsame => absurd hsame hname⟩, And.left⟩

end TruellmEngine.Lib
