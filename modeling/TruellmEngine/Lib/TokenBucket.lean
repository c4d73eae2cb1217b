/-
  A token bucket over a linearly ordered field: it fills at `rate` up to `cap`, and a take
  needs one token. What a bucket holds is only written down when it is used (`Fill`), the
  level at a later moment is computed from there (`levelAt`). A bucket never used is full.

  * `window_bound`: in a window of length `d` at most `cap + rate * d` takes are granted, in
    any sequence of takes in order of time. The argument is amortised: a grant costs one
    token, and the level rises by at most `rate` per unit of time (`spent_le`).
  * `levelAt_forgotten`: a bucket idle for so long that it is full again may be forgotten.
-/
import Mathlib.Algebra.Order.Field.Basic
import Mathlib.Tactic.Linarith
import Mathlib.Tactic.Ring

namespace TruellmEngine.Lib

structure TokenBucket (K : Type*) where
  rate : K
  cap : K

/-- The level of a bucket when it was used last, and when that was. -/
structure Fill (K : Type*) where
  level : K
  stamp : K

namespace TokenBucket

variable {K : Type*} [Field K] [LinearOrder K]

/-- What the bucket holds at `t`. -/
def levelAt (m : TokenBucket K) : Option (Fill K) → K → K
  | none, _ => m.cap
  | some f, t => min (f.level + (t - f.stamp) * m.rate) m.cap

/-- Take one token at `t` if there is one. -/
def take (m : TokenBucket K) (f : Option (Fill K)) (t : K) : Bool × Fill K :=
  if 1 ≤ m.levelAt f t then (true, ⟨m.levelAt f t - 1, t⟩) else (false, ⟨m.levelAt f t, t⟩)

/-- The moments of the takes `ts` that are granted. -/
def granted (m : TokenBucket K) : Option (Fill K) → List K → List K
  | _, [] => []
  | f, t :: ts =>
    let r := m.take f t
    if r.1 then t :: granted m (some r.2) ts else granted m (some r.2) ts

variable {m : TokenBucket K} {f : Option (Fill K)} {t u : K}

theorem take_of_le (h : 1 ≤ m.levelAt f t) : m.take f t = (true, ⟨m.levelAt f t - 1, t⟩) :=
  if_pos h

theorem take_of_lt (h : ¬ 1 ≤ m.levelAt f t) : m.take f t = (false, ⟨m.levelAt f t, t⟩) :=
  if_neg h

/-- A take sees a bucket through its level only. -/
theorem take_congr {g : Option (Fill K)} (h : m.levelAt f t = m.levelAt g t) :
    m.take f t = m.take g t := by
  unfold take
  rw [h]

@[simp] theorem take_stamp (m : TokenBucket K) (f : Option (Fill K)) (t : K) :
    (m.take f t).2.stamp = t := by
  unfold take
  split <;> rfl

theorem levelAt_le_cap (m : TokenBucket K) (f : Option (Fill K)) (t : K) :
    m.levelAt f t ≤ m.cap := by
  cases f with
  | none => exact le_refl _
  | some f => exact min_le_right _ _

theorem mem_of_mem_granted {ts : List K} (h : u ∈ m.granted f ts) : u ∈ ts := by
  induction ts generalizing f with
  | nil => exact h
  | cons t ts ih =>
    unfold granted at h
    dsimp only at h
    split at h
    · rcases List.mem_cons.mp h with rfl | h
      · exact List.mem_cons_self
      · exact List.mem_cons_of_mem t (ih h)
    · exact List.mem_cons_of_mem t (ih h)

theorem countP_granted_zero {p : K → Bool} {ts : List K} (h : ∀ u ∈ ts, ¬ p u = true) :
    (m.granted f ts).countP p = 0 :=
  List.countP_eq_zero.mpr fun u hu => h u (mem_of_mem_granted hu)

variable [IsStrictOrderedRing K]

theorem levelAt_mono (hrate : 0 ≤ m.rate) (h : t ≤ u) : m.levelAt f t ≤ m.levelAt f u := by
  cases f with
  | none => exact le_refl _
  | some f =>
    refine min_le_min_right m.cap ?_
    have hmul : (t - f.stamp) * m.rate ≤ (u - f.stamp) * m.rate :=
      mul_le_mul_of_nonneg_right (by linarith) hrate
    linarith

/-- The level rises by at most `rate` per unit of time. -/
theorem levelAt_le_add (hrate : 0 ≤ m.rate) (h : t ≤ u) :
    m.levelAt f u ≤ m.levelAt f t + m.rate * (u - t) := by
  have hrise : 0 ≤ m.rate * (u - t) := mul_nonneg hrate (by linarith)
  cases f with
  | none =>
    show m.cap ≤ m.cap + m.rate * (u - t)
    linarith
  | some f =>
    show min _ _ ≤ min _ _ + m.rate * (u - t)
    rw [← min_add_add_right]
    refine min_le_min ?_ (by linarith)
    have hsplit : f.level + (u - f.stamp) * m.rate =
        f.level + (t - f.stamp) * m.rate + m.rate * (u - t) := by ring
    exact le_of_eq hsplit

/-- The level right behind a take. -/
theorem levelAt_take (m : TokenBucket K) (f : Option (Fill K)) (t : K) :
    m.levelAt (some (m.take f t).2) t =
      if 1 ≤ m.levelAt f t then m.levelAt f t - 1 else m.levelAt f t := by
  have hcap := levelAt_le_cap m f t
  have hstay : ∀ x : K, x ≤ m.cap → m.levelAt (some ⟨x, t⟩) t = x := by
    intro x hx
    show min (x + (t - t) * m.rate) m.cap = x
    rw [sub_self, zero_mul, add_zero, min_eq_left hx]
  by_cases h : 1 ≤ m.levelAt f t
  · rw [take_of_le h, if_pos h]
    exact hstay _ (by linarith)
  · rw [take_of_lt h, if_neg h]
    exact hstay _ hcap

theorem levelAt_take_nonneg (hrate : 0 ≤ m.rate) (hf : 0 ≤ m.levelAt f t) (h : t ≤ u) :
    0 ≤ m.levelAt (some (m.take f t).2) u := by
  refine le_trans ?_ (levelAt_mono hrate h)
  rw [levelAt_take]
  split
  · linarith
  · exact hf

/-- The takes granted up to `e` are paid by the level at `b` and what flows in since. -/
theorem spent_le (hrate : 0 ≤ m.rate) {ts : List K} (hts : ts.Pairwise (· ≤ ·)) {b e : K}
    (hbe : b ≤ e) (hb : ∀ t ∈ ts, b ≤ t) (hf : 0 ≤ m.levelAt f b) :
    (((m.granted f ts).countP fun t => t ≤ e : Nat) : K) ≤ m.levelAt f b + m.rate * (e - b) := by
  induction ts generalizing f b with
  | nil =>
    have hflow : 0 ≤ m.rate * (e - b) := mul_nonneg hrate (by linarith)
    simp only [granted, List.countP_nil, Nat.cast_zero]
    linarith
  | cons t ts ih =>
    obtain ⟨hlater, hts⟩ := List.pairwise_cons.mp hts
    have hbt : b ≤ t := hb t List.mem_cons_self
    by_cases hte : t ≤ e
    · have hflow := levelAt_le_add (f := f) hrate hbt
      have hft : 0 ≤ m.levelAt f t := le_trans hf (levelAt_mono hrate hbt)
      have hrest := ih hts hte hlater (levelAt_take_nonneg hrate hft (le_refl t))
      rw [levelAt_take] at hrest
      unfold granted
      dsimp only
      by_cases h : 1 ≤ m.levelAt f t
      · rw [if_pos h] at hrest
        rw [if_pos (by rw [take_of_le h]), List.countP_cons_of_pos (by simpa using hte)]
        push_cast
        linarith
      · rw [if_neg h] at hrest
        rw [if_neg (by rw [take_of_lt h]; simp)]
        linarith
    · -- this take and all later ones lie behind the window
      have hnone : (m.granted f (t :: ts)).countP (fun t => t ≤ e) = 0 := by
        apply countP_granted_zero
        intro u hu hue
        have hue : u ≤ e := by simpa using hue
        rcases List.mem_cons.mp hu with rfl | hu
        · exact hte hue
        · exact hte (le_trans (hlater u hu) hue)
      have hflow : 0 ≤ m.rate * (e - b) := mul_nonneg hrate (by linarith)
      rw [hnone, Nat.cast_zero]
      linarith

/-- At most `cap + rate * d` takes are granted in a window of length `d`. -/
theorem window_bound (hrate : 0 ≤ m.rate) (hcap : 0 ≤ m.cap) {ts : List K}
    (hts : ts.Pairwise (· ≤ ·)) (hf : ∀ t ∈ ts, 0 ≤ m.levelAt f t) (b : K) {d : K}
    (hd : 0 ≤ d) :
    (((m.granted f ts).countP fun t => b ≤ t ∧ t ≤ b + d : Nat) : K) ≤ m.cap + m.rate * d := by
  induction ts generalizing f with
  | nil =>
    have hflow : 0 ≤ m.rate * d := mul_nonneg hrate hd
    simp only [granted, List.countP_nil, Nat.cast_zero]
    linarith
  | cons t ts ih =>
    obtain ⟨hlater, hts'⟩ := List.pairwise_cons.mp hts
    have hft : 0 ≤ m.levelAt f t := hf t List.mem_cons_self
    by_cases hbt : b ≤ t
    · by_cases htd : t ≤ b + d
      · -- the first take of the window: from here on the level pays
        have hle : (((m.granted f (t :: ts)).countP fun t => b ≤ t ∧ t ≤ b + d : Nat) : K) ≤
            (((m.granted f (t :: ts)).countP fun t => t ≤ b + d : Nat) : K) := by
          refine Nat.cast_le.mpr (List.countP_mono_left ?_)
          intro u _ hu
          simp only [decide_eq_true_eq] at hu ⊢
          exact hu.2
        have hspent := spent_le hrate hts htd
          (fun u hu => by
            rcases List.mem_cons.mp hu with rfl | hu
            · exact le_refl _
            · exact hlater u hu) hft
        have hcapt := levelAt_le_cap m f t
        have hwin : m.rate * (b + d - t) ≤ m.rate * d :=
          mul_le_mul_of_nonneg_left (by linarith) hrate
        linarith
      · have hnone : (m.granted f (t :: ts)).countP (fun t => b ≤ t ∧ t ≤ b + d) = 0 := by
          apply countP_granted_zero
          intro u hu hud
          have hud : b ≤ u ∧ u ≤ b + d := by simpa using hud
          rcases List.mem_cons.mp hu with rfl | hu
          · exact htd hud.2
          · exact htd (le_trans (hlater u hu) hud.2)
        have hflow : 0 ≤ m.rate * d := mul_nonneg hrate hd
        rw [hnone, Nat.cast_zero]
        linarith
    · have hrest := ih hts' (f := some (m.take f t).2)
        fun u hu => levelAt_take_nonneg hrate hft (hlater u hu)
      unfold granted
      dsimp only
      split
      · rw [List.countP_cons_of_neg (by simp [hbt])]
        exact hrest
      · exact hrest

/-- Without room for a token nothing is granted. -/
theorem granted_of_cap_lt (hcap : m.cap < 1) (f : Option (Fill K)) (ts : List K) :
    m.granted f ts = [] := by
  induction ts generalizing f with
  | nil => rfl
  | cons t ts ih =>
    have h : ¬ 1 ≤ m.levelAt f t := by
      have := levelAt_le_cap m f t
      linarith
    unfold granted
    dsimp only
    rw [if_neg (by rw [take_of_lt h]; simp)]
    exact ih _

/-- An idle bucket is full again. -/
theorem levelAt_forgotten (hrate : 0 ≤ m.rate) {f : Fill K} (hlow : min 0 m.cap ≤ f.level)
    (hstamp : f.stamp ≤ t) {age : K} (hage : m.cap ≤ m.rate * age) (hidle : f.stamp + age ≤ t) :
    m.levelAt (some f) t = m.cap := by
  refine min_eq_right ?_
  rcases le_or_gt 0 m.cap with hcap | hcap
  · have hlow : 0 ≤ f.level := by rwa [min_eq_left hcap] at hlow
    have hmul : age * m.rate ≤ (t - f.stamp) * m.rate :=
      mul_le_mul_of_nonneg_right (by linarith) hrate
    linarith
  · have hlow : m.cap ≤ f.level := by rwa [min_eq_right hcap.le] at hlow
    have hmul : 0 ≤ (t - f.stamp) * m.rate := mul_nonneg (by linarith) hrate
    linarith

end TokenBucket

end TruellmEngine.Lib
