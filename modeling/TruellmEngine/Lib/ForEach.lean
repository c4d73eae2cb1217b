/-
  `for (auto& x : xs) body`: a loop over a list of records that may rewrite each record
  and a shared state. `forEach f s xs` threads the state `s` through the records in
  order and returns the last state with the rewritten records.

  Rules, by what the loop body owns:

  * `forEach_forall₂`: what each body does to its record.
  * `forEach_conserved`: a quantity split between the state and the records.
  * `forEach_adds`: a quantity of the state that grows by an amount per record.
  * `forEach_appends`: a log in the state that grows by some entries per record.
  * `forEach_keeps`: a property of the state that every body keeps.
  * `forEach_owned`: each body owns the part of the state named by its record's key.
    What the body establishes for its own record survives the other bodies.
-/
import Mathlib.Data.List.Basic
import Mathlib.Data.List.Forall2
import Mathlib.Algebra.BigOperators.Group.List.Basic
import Mathlib.Algebra.Ring.Nat

namespace TruellmEngine.Lib

variable {σ α κ : Type*}

/-- Run `f` on every record of the list in order, threading the state. -/
def forEach (f : σ → α → σ × α) : σ → List α → σ × List α
  | s, [] => (s, [])
  | s, a :: as =>
    let r := f s a
    let rs := forEach f r.1 as
    (rs.1, r.2 :: rs.2)

variable {f : σ → α → σ × α}

theorem forEach_cons (s : σ) (a : α) (as : List α) :
    forEach f s (a :: as) =
      ((forEach f (f s a).1 as).1, (f s a).2 :: (forEach f (f s a).1 as).2) := rfl

/-- What a body never changes in a record, the loop does not change. -/
theorem forEach_map {β : Type*} (g : α → β) (hg : ∀ s a, g (f s a).2 = g a) (s : σ)
    (as : List α) : (forEach f s as).2.map g = as.map g := by
  induction as generalizing s with
  | nil => rfl
  | cons a as ih =>
    rw [forEach_cons, List.map_cons, List.map_cons, hg, ih]

/-- What every body establishes between a record and its rewritten form holds pointwise. -/
theorem forEach_forall₂ {R : α → α → Prop} (hf : ∀ s a, R a (f s a).2) (s : σ) (as : List α) :
    List.Forall₂ R as (forEach f s as).2 := by
  induction as generalizing s with
  | nil => exact List.Forall₂.nil
  | cons a as ih =>
    rw [forEach_cons]
    exact List.Forall₂.cons (hf s a) (ih (f s a).1)

/-- A quantity that every body moves between the state and its record is conserved. -/
theorem forEach_conserved (μ : σ → Nat) (ν : α → Nat) {as : List α}
    (hf : ∀ s a, a ∈ as → μ (f s a).1 + ν (f s a).2 = μ s + ν a) (s : σ) :
    μ (forEach f s as).1 + ((forEach f s as).2.map ν).sum = μ s + (as.map ν).sum := by
  induction as generalizing s with
  | nil => rfl
  | cons a as ih =>
    have ha := hf s a List.mem_cons_self
    have ht := ih (fun s b hb => hf s b (List.mem_cons_of_mem a hb)) (f s a).1
    rw [forEach_cons]
    simp only [List.map_cons, List.sum_cons]
    omega

/-- A quantity that every body raises by an amount its record determines. -/
theorem forEach_adds (μ : σ → Nat) (ν : α → Nat) (hf : ∀ s a, μ (f s a).1 = μ s + ν a)
    (s : σ) (as : List α) : μ (forEach f s as).1 = μ s + (as.map ν).sum := by
  induction as generalizing s with
  | nil => rfl
  | cons a as ih =>
    rw [forEach_cons, ih, hf, List.map_cons, List.sum_cons]
    omega

/-- A list in the state to which every body appends what its record determines. -/
theorem forEach_appends {β : Type*} (v : σ → List β) (g : α → List β)
    (hf : ∀ s a, v (f s a).1 = v s ++ g a) (s : σ) (as : List α) :
    v (forEach f s as).1 = v s ++ as.flatMap g := by
  induction as generalizing s with
  | nil => simp [forEach]
  | cons a as ih =>
    rw [forEach_cons, ih, hf, List.flatMap_cons, List.append_assoc]

/-- A property of the state that the body of every record of the list keeps. -/
theorem forEach_keeps {P : σ → Prop} {as : List α}
    (hf : ∀ s a, a ∈ as → P s → P (f s a).1) {s : σ} (hs : P s) :
    P (forEach f s as).1 := by
  induction as generalizing s with
  | nil => exact hs
  | cons a as ih =>
    rw [forEach_cons]
    exact ih (fun s b hb => hf s b (List.mem_cons_of_mem a hb)) (hf s a List.mem_cons_self hs)

/-- The ownership rule. `key` names the part of the state a record owns. If a body turns
    `P` of its own record into `Q`, keeps the state invariant `J`, and disturbs neither
    `P` nor `Q` of a record with another key, then after the loop every record has `Q`,
    related to the record it started from. -/
theorem forEach_owned {J : σ → Prop} {P : σ → α → Prop} {Q : σ → α → α → Prop}
    (key : α → κ)
    (hkey : ∀ s a, key (f s a).2 = key a)
    (hJ : ∀ s a, J s → P s a → J (f s a).1)
    (hbody : ∀ s a, J s → P s a → Q (f s a).1 a (f s a).2)
    (hP : ∀ s a b, key b ≠ key a → P s a → P s b → P (f s a).1 b)
    (hQ : ∀ s a b b', key b' ≠ key a → P s a → Q s b b' → Q (f s a).1 b b')
    {s : σ} {as : List α} (hs : J s) (hnd : (as.map key).Nodup) (has : ∀ a ∈ as, P s a) :
    J (forEach f s as).1 ∧
      List.Forall₂ (fun a a' => Q (forEach f s as).1 a a') as (forEach f s as).2 := by
  induction as generalizing s with
  | nil => exact ⟨hs, List.Forall₂.nil⟩
  | cons a as ih =>
    rw [List.map_cons, List.nodup_cons] at hnd
    obtain ⟨hfresh, hnd⟩ := hnd
    have hne : ∀ b ∈ as, key b ≠ key a := by
      intro b hb he
      exact hfresh (he ▸ List.mem_map_of_mem hb)
    have hPa : P s a := has a List.mem_cons_self
    have hrest : ∀ b ∈ as, P (f s a).1 b := fun b hb =>
      hP s a b (hne b hb) hPa (has b (List.mem_cons_of_mem a hb))
    obtain ⟨hJ', hall⟩ := ih (hJ s a hs hPa) hnd hrest
    rw [forEach_cons]
    refine ⟨hJ', List.Forall₂.cons ?_ hall⟩
    -- `Q` of the head survives the bodies of the tail, whose records own other keys
    have key' : key (f s a).2 = key a := hkey s a
    have keep : ∀ (bs : List α) (t : σ), (∀ b ∈ bs, key b ≠ key a) → (bs.map key).Nodup →
        (∀ b ∈ bs, P t b) → Q t a (f s a).2 → Q (forEach f t bs).1 a (f s a).2 := by
      intro bs
      induction bs with
      | nil => exact fun t _ _ _ h => h
      | cons b bs ihb =>
        intro t hk hn hPt h
        rw [forEach_cons]
        rw [List.map_cons, List.nodup_cons] at hn
        have hb : key b ≠ key a := hk b List.mem_cons_self
        have hPb : P t b := hPt b List.mem_cons_self
        refine ihb (f t b).1 (fun c hc => hk c (List.mem_cons_of_mem b hc)) hn.2 ?_ ?_
        · intro c hc
          refine hP t b c ?_ hPb (hPt c (List.mem_cons_of_mem b hc))
          intro he
          exact hn.1 (he ▸ List.mem_map_of_mem hc)
        · exact hQ t b a (f s a).2 (by rw [key']; exact hb.symm) hPb h
    exact keep as (f s a).1 hne hnd hrest (hbody s a hs hPa)

theorem forall₂_mem_right {β : Type*} {R : α → β → Prop} {as : List α} {bs : List β}
    (h : List.Forall₂ R as bs) {b : β} (hb : b ∈ bs) : ∃ a ∈ as, R a b := by
  induction h with
  | nil => cases hb
  | @cons a b' as bs hab _ ih =>
    rcases List.mem_cons.mp hb with rfl | hb
    · exact ⟨a, List.mem_cons_self, hab⟩
    · obtain ⟨c, hc, hR⟩ := ih hb
      exact ⟨c, List.mem_cons_of_mem a hc, hR⟩

theorem forall₂_map_eq {β : Type*} {R : α → α → Prop} (g : α → β)
    (hg : ∀ a b, R a b → g b = g a) {as bs : List α} (h : List.Forall₂ R as bs) :
    bs.map g = as.map g := by
  induction h with
  | nil => rfl
  | cons hab _ ih => rw [List.map_cons, List.map_cons, hg _ _ hab, ih]

/-- A quantity that no record of the second list has more of. -/
theorem forall₂_sum_le {β : Type*} {R : α → β → Prop} {μ : α → Nat} {ν : β → Nat}
    (hle : ∀ a b, R a b → ν b ≤ μ a) {as : List α} {bs : List β} (h : List.Forall₂ R as bs) :
    (bs.map ν).sum ≤ (as.map μ).sum := by
  induction h with
  | nil => exact Nat.le_refl _
  | cons hab _ ih =>
    simp only [List.map_cons, List.sum_cons]
    exact Nat.add_le_add (hle _ _ hab) ih

/-- A quantity that moreover one of the records has less of. -/
theorem forall₂_sum_lt {β : Type*} {R : α → β → Prop} {μ : α → Nat} {ν : β → Nat}
    (hle : ∀ a b, R a b → ν b ≤ μ a) {a : α} (hlt : ∀ b, R a b → ν b < μ a) {as : List α}
    {bs : List β} (h : List.Forall₂ R as bs) (ha : a ∈ as) :
    (bs.map ν).sum < (as.map μ).sum := by
  induction h with
  | nil => cases ha
  | cons hab hrest ih =>
    simp only [List.map_cons, List.sum_cons]
    rcases List.mem_cons.mp ha with rfl | ha
    · exact Nat.add_lt_add_of_lt_of_le (hlt _ hab) (forall₂_sum_le hle hrest)
    · exact Nat.add_lt_add_of_le_of_lt (hle _ _ hab) (ih ha)

theorem forall₂_mem_left {β : Type*} {R : α → β → Prop} {as : List α} {bs : List β}
    (h : List.Forall₂ R as bs) {a : α} (ha : a ∈ as) : ∃ b ∈ bs, R a b :=
  forall₂_mem_right h.flip ha

end TruellmEngine.Lib
