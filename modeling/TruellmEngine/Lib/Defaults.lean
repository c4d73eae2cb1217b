/-
  Names of which some are missing, and what stands for these: a default for each place
  (`fill`), or one default for all.

  `nodup_fill_iff` and `nodup_getD_iff` say when the names are then distinct.
-/
import Mathlib.Data.List.Nodup
import Mathlib.Data.List.ReduceOption

namespace TruellmEngine.Lib

variable {α : Type*}

/-- The names, with the default of the place where there is none; places count from `k`. -/
def fill (d : Nat → α) : Nat → List (Option α) → List α
  | _, [] => []
  | k, o :: os => o.getD (d k) :: fill d (k + 1) os

theorem fill_eq_map (d : Nat → α) (k : Nat) (os : List (Option α)) :
    fill d k os = (os.zipIdx k).map fun o => o.1.getD (d o.2) := by
  induction os generalizing k with
  | nil => rfl
  | cons o os ih => rw [fill, ih, List.zipIdx_cons, List.map_cons]

theorem mem_fill {d : Nat → α} {a : α} {k : Nat} {os : List (Option α)} :
    a ∈ fill d k os ↔ some a ∈ os ∨ ∃ i, os[i]? = some none ∧ a = d (k + i) := by
  induction os generalizing k with
  | nil => simp [fill]
  | cons o os ih =>
    have hplaces : (∃ i, (o :: os)[i]? = some none ∧ a = d (k + i)) ↔
        (o = none ∧ a = d k) ∨ ∃ i, os[i]? = some none ∧ a = d (k + 1 + i) := by
      constructor
      · rintro ⟨i, hi, ha⟩
        cases i with
        | zero => exact .inl ⟨Option.some.inj hi, ha⟩
        | succ i => exact .inr ⟨i, hi, by rw [ha, Nat.add_right_comm, Nat.add_assoc]⟩
      · rintro (⟨rfl, ha⟩ | ⟨i, hi, ha⟩)
        · exact ⟨0, rfl, ha⟩
        · exact ⟨i + 1, hi, by rw [ha, Nat.add_right_comm, Nat.add_assoc]⟩
    rw [fill, List.mem_cons, ih, hplaces, List.mem_cons]
    cases o with
    | none => simp [or_left_comm]
    | some b => simp [or_assoc]

/-- With defaults by place, the names are distinct just if those that are there are, and none of
    them is the default of a place where one is missing. -/
theorem nodup_fill_iff {d : Nat → α} (hd : Function.Injective d) (k : Nat)
    (os : List (Option α)) :
    (fill d k os).Nodup ↔
      os.reduceOption.Nodup ∧ ∀ i, os[i]? = some none → some (d (k + i)) ∉ os := by
  induction os generalizing k with
  | nil => simp [fill, List.reduceOption]
  | cons o os ih =>
    have hplaces : (∀ i, (o :: os)[i]? = some none → some (d (k + i)) ∉ o :: os) ↔
        (o = none → some (d k) ∉ o :: os) ∧
          ∀ i, os[i]? = some none → some (d (k + 1 + i)) ∉ o :: os := by
      constructor
      · intro h
        refine ⟨fun ho => h 0 (congrArg some ho), fun i hi => ?_⟩
        rw [Nat.add_right_comm, Nat.add_assoc]
        exact h (i + 1) hi
      · rintro ⟨hfirst, hrest⟩ i hi
        cases i with
        | zero => exact hfirst (Option.some.inj hi)
        | succ i =>
          have hi' := hrest i hi
          rwa [Nat.add_right_comm, Nat.add_assoc] at hi'
    rw [fill, List.nodup_cons, ih, mem_fill, hplaces]
    cases o with
    | none =>
      have hnew : ∀ i, d k ≠ d (k + 1 + i) := fun i heq => by
        have hi := hd heq
        omega
      rw [List.reduceOption_cons_of_none]
      simp only [Option.getD_none, hnew, and_false, exists_false, or_false, List.mem_cons,
        reduceCtorEq, false_or, true_implies]
      exact and_left_comm
    | some b =>
      rw [List.reduceOption_cons_of_some, List.nodup_cons, List.reduceOption_mem_iff]
      simp only [Option.getD_some, not_or, not_exists, not_and, List.mem_cons, Option.some.injEq,
        reduceCtorEq, false_implies, true_and]
      constructor
      · rintro ⟨⟨hnew, hapart⟩, hnodup, hplaces⟩
        exact ⟨⟨hnew, hnodup⟩, fun i hi => ⟨Ne.symm (hapart i hi), hplaces i hi⟩⟩
      · rintro ⟨⟨hnew, hnodup⟩, hplaces⟩
        exact ⟨⟨hnew, fun i hi => Ne.symm (hplaces i hi).1⟩, hnodup, fun i hi => (hplaces i hi).2⟩

theorem mem_getD {d a : α} {os : List (Option α)} :
    a ∈ os.map (fun o => o.getD d) ↔ some a ∈ os ∨ none ∈ os ∧ a = d := by
  rw [List.mem_map]
  constructor
  · rintro ⟨o, ho, rfl⟩
    cases o with
    | none => exact .inr ⟨ho, rfl⟩
    | some b => exact .inl ho
  · rintro (h | ⟨h, rfl⟩)
    · exact ⟨some a, h, rfl⟩
    · exact ⟨none, h, rfl⟩

theorem countP_isNone_eq_zero {os : List (Option α)} :
    os.countP Option.isNone = 0 ↔ none ∉ os := by
  rw [List.countP_eq_zero]
  constructor
  · exact fun h hnone => h none hnone rfl
  · intro h o ho hnone
    rw [Option.isNone_iff_eq_none.mp hnone] at ho
    exact h ho

/-- With one default for all, moreover at most one name may be missing. -/
theorem nodup_getD_iff (d : α) (os : List (Option α)) :
    (os.map fun o => o.getD d).Nodup ↔
      os.reduceOption.Nodup ∧ os.countP Option.isNone ≤ 1 ∧ (none ∈ os → some d ∉ os) := by
  induction os with
  | nil => simp
  | cons o os ih =>
    rw [List.map_cons, List.nodup_cons, mem_getD, ih]
    cases o with
    | none =>
      have hcount : (none :: os).countP Option.isNone ≤ 1 ↔ none ∉ os := by
        rw [List.countP_cons_of_pos rfl, ← countP_isNone_eq_zero]
        omega
      rw [hcount, List.reduceOption_cons_of_none]
      constructor
      · rintro ⟨hnew, hnodup, -, -⟩
        refine ⟨hnodup, fun h => hnew (.inr ⟨h, rfl⟩), fun _ hd => ?_⟩
        exact hnew (.inl (List.mem_of_ne_of_mem (by simp) hd))
      · rintro ⟨hnodup, hnone, hd⟩
        refine ⟨?_, hnodup, ?_, fun h => absurd h hnone⟩
        · rintro (h | ⟨h, -⟩)
          · exact hd List.mem_cons_self (List.mem_cons_of_mem _ h)
          · exact hnone h
        · rw [countP_isNone_eq_zero.mpr hnone]
          exact Nat.zero_le 1
    | some b =>
      rw [List.countP_cons_of_neg (by simp), List.reduceOption_cons_of_some, List.nodup_cons,
        List.reduceOption_mem_iff]
      constructor
      · rintro ⟨hnew, hnodup, hcount, hd⟩
        refine ⟨⟨fun h => hnew (.inl h), hnodup⟩, hcount, fun h hd' => ?_⟩
        have hnone : none ∈ os := List.mem_of_ne_of_mem (by simp) h
        rcases List.mem_cons.mp hd' with heq | hd'
        · exact hnew (.inr ⟨hnone, (Option.some.inj heq).symm⟩)
        · exact hd hnone hd'
      · rintro ⟨⟨hnew, hnodup⟩, hcount, hd⟩
        refine ⟨?_, hnodup, hcount, fun h hd' => ?_⟩
        · rintro (h | ⟨h, heq⟩)
          · exact hnew h
          · refine hd (List.mem_cons_of_mem _ h) ?_
            rw [← heq]
            exact List.mem_cons_self
        · exact hd (List.mem_cons_of_mem _ h) (List.mem_cons_of_mem _ hd')

end TruellmEngine.Lib
