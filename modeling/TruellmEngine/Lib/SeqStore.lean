/-
  A store of several sequences, each a partial map from positions to values, written by
  batches that mix entries of different sequences.

  `Holds m xs` says that the positions `0 .. xs.length - 1` of `m` hold `xs` and that no
  other position holds anything. The rules say how a batch moves it: a sequence with no
  entry in the batch is untouched (`writeAll_other`), and a sequence whose entries number
  the next positions in order grows by exactly these values (`writeAll_holds`), each of
  them written right behind the cells already there (`writeAll_inOrder`).
-/
import Mathlib.Data.List.Basic
import Mathlib.Data.List.Enum

namespace TruellmEngine.Lib

variable {κ α : Type*}

/-- The positions of `m` that hold something are `0 .. xs.length - 1`, and they hold `xs`. -/
def Holds (m : Nat → Option α) (xs : List α) : Prop := ∀ p, m p = xs[p]?

theorem holds_nil_iff {m : Nat → Option α} : Holds m [] ↔ ∀ p, m p = none := by
  simp [Holds]

theorem Holds.unique {m : Nat → Option α} {xs ys : List α} (hx : Holds m xs)
    (hy : Holds m ys) : xs = ys :=
  List.ext_getElem? fun p => (hx p).symm.trans (hy p)

/-- Dropping every position from `n` on leaves the first `n` values. -/
theorem Holds.truncate {m : Nat → Option α} {xs : List α} (h : Holds m xs) (n : Nat) :
    Holds (fun p => if n ≤ p then none else m p) (xs.take n) := by
  intro p
  show (if n ≤ p then none else m p) = (xs.take n)[p]?
  by_cases hp : n ≤ p
  · rw [if_pos hp, List.getElem?_eq_none (by simp; omega)]
  · rw [if_neg hp, h p, List.getElem?_take_of_lt (by omega)]

/-- Writing one value at the first empty position. -/
theorem Holds.push {m : Nat → Option α} {xs : List α} (h : Holds m xs) (x : α) :
    Holds (fun p => if p = xs.length then some x else m p) (xs ++ [x]) := by
  intro p
  show (if p = xs.length then some x else m p) = (xs ++ [x])[p]?
  by_cases hp : p = xs.length
  · simp [hp]
  · rw [if_neg hp, h p]
    rcases Nat.lt_or_gt_of_ne hp with hlt | hgt
    · rw [List.getElem?_append_left hlt]
    · rw [List.getElem?_eq_none (by omega), List.getElem?_eq_none (by simp; omega)]

variable [DecidableEq κ]

/-- Write one entry: its key, and the value with its position. -/
def write (s : κ → Nat → Option α) (e : κ × α × Nat) : κ → Nat → Option α :=
  fun k p => if k = e.1 ∧ p = e.2.2 then some e.2.1 else s k p

/-- Write a batch, first entry first. -/
def writeAll (s : κ → Nat → Option α) (es : List (κ × α × Nat)) : κ → Nat → Option α :=
  es.foldl write s

/-- The entries of one key, in batch order. -/
def ofKey (k : κ) (es : List (κ × α × Nat)) : List (α × Nat) :=
  (es.filter fun e => e.1 = k).map Prod.snd

@[simp] theorem ofKey_nil (k : κ) : ofKey k ([] : List (κ × α × Nat)) = [] := rfl

theorem ofKey_append (k : κ) (es fs : List (κ × α × Nat)) :
    ofKey k (es ++ fs) = ofKey k es ++ ofKey k fs := by
  simp [ofKey]

theorem ofKey_cons_self (k : κ) (v : α × Nat) (es : List (κ × α × Nat)) :
    ofKey k ((k, v) :: es) = v :: ofKey k es := by
  simp [ofKey]

theorem ofKey_cons_other {k : κ} {e : κ × α × Nat} (h : e.1 ≠ k) (es : List (κ × α × Nat)) :
    ofKey k (e :: es) = ofKey k es := by
  simp [ofKey, h]

/-- A sequence without entries in the batch is untouched. -/
theorem writeAll_other {k : κ} {es : List (κ × α × Nat)} (h : ofKey k es = [])
    (s : κ → Nat → Option α) : writeAll s es k = s k := by
  induction es generalizing s with
  | nil => rfl
  | cons e es ih =>
    by_cases he : e.1 = k
    · obtain ⟨k', v⟩ := e
      subst he
      rw [ofKey_cons_self] at h
      cases h
    · rw [ofKey_cons_other he] at h
      have step : writeAll s (e :: es) k = writeAll (write s e) es k := rfl
      rw [step, ih h]
      funext p
      simp [write, Ne.symm he]

theorem write_holds {k : κ} {s : κ → Nat → Option α} {xs : List α} (h : Holds (s k) xs)
    (x : α) : Holds (write s (k, x, xs.length) k) (xs ++ [x]) := by
  have hp := h.push x
  intro p
  rw [← hp p]
  simp [write]

/-- A sequence whose entries number its next positions in order grows by their values. -/
theorem writeAll_holds {k : κ} {es : List (κ × α × Nat)} {s : κ → Nat → Option α}
    {pre xs : List α} (h : Holds (s k) pre) (hes : ofKey k es = xs.zipIdx pre.length) :
    Holds (writeAll s es k) (pre ++ xs) := by
  induction es generalizing s pre xs with
  | nil =>
    have hx : xs = [] := by simpa using hes.symm
    rw [hx, List.append_nil]
    exact h
  | cons e es ih =>
    have step : writeAll s (e :: es) = writeAll (write s e) es := rfl
    rw [step]
    obtain ⟨k', v⟩ := e
    by_cases he : k' = k
    · subst he
      rw [ofKey_cons_self] at hes
      cases xs with
      | nil => cases hes
      | cons x xs =>
        rw [List.zipIdx_cons, List.cons.injEq] at hes
        obtain ⟨rfl, hrest⟩ := hes
        have hlen : (pre ++ [x]).length = pre.length + 1 := by simp
        rw [List.append_cons]
        exact ih (write_holds h x) (by rw [hrest, hlen])
    · rw [ofKey_cons_other he] at hes
      refine ih ?_ hes
      intro p
      rw [← h p]
      simp [write, Ne.symm he]

/-- Under the hypotheses of `writeAll_holds`, every entry of the sequence is written at the
    position right behind the cells present at that moment, and those are the values of the
    sequence before it. -/
theorem writeAll_inOrder {k : κ} {es₁ es₂ : List (κ × α × Nat)} {v : α × Nat}
    {s : κ → Nat → Option α} {pre xs : List α} (h : Holds (s k) pre)
    (hes : ofKey k (es₁ ++ (k, v) :: es₂) = xs.zipIdx pre.length) :
    Holds (writeAll s es₁ k) ((pre ++ xs).take v.2) ∧ (pre ++ xs)[v.2]? = some v.1 := by
  rw [ofKey_append, ofKey_cons_self] at hes
  obtain ⟨ys, zs, rfl, h1, h2⟩ := List.zipIdx_eq_append_iff.mp hes.symm
  cases zs with
  | nil => cases h2
  | cons z zs =>
    rw [List.zipIdx_cons, List.cons.injEq] at h2
    obtain ⟨rfl, -⟩ := h2
    have hlen : (pre ++ ys).length = pre.length + ys.length := List.length_append
    rw [← List.append_assoc, ← hlen]
    refine ⟨?_, by simp⟩
    rw [List.take_left]
    exact writeAll_holds h h1

end TruellmEngine.Lib
