/-
  A memory that keeps track of the cells a program has loaded and stored, and the rules for
  programs over it.

  `Touches m m' L S`: the program that takes `m` to `m'` loads the cells of `L`, stores to
  those of `S`, and leaves the others as they are. It composes (`Touches.trans`), also along a
  loop (`Touches.foldl`).
-/
import Mathlib.Data.List.Basic

namespace TruellmEngine.Lib

/-- A memory, with the addresses loaded and stored so far. -/
structure Traced (α : Type*) where
  cells : Nat → α
  loads : List Nat
  stores : List Nat

namespace Traced

variable {α β : Type*}

def ofCells (cells : Nat → α) : Traced α := ⟨cells, [], []⟩

/-- The `len` cells from `base` on. -/
def load (m : Traced α) (base len : Nat) : List α × Traced α :=
  ((List.range' base len).map m.cells, { m with loads := m.loads ++ List.range' base len })

/-- Cell `base + d` becomes `f d`, for each `d` below `len`. -/
def store (m : Traced α) (base len : Nat) (f : Nat → α) : Traced α where
  cells := fun c => if base ≤ c ∧ c < base + len then f (c - base) else m.cells c
  loads := m.loads
  stores := m.stores ++ List.range' base len

/-- Loads a run of cells and stores what `f` makes of it. -/
def rewrite (f : List α → Nat → α) (len : Nat) (m : Traced α) (base : Nat) : Traced α :=
  (m.load base len).2.store base len (f (m.load base len).1)

structure Touches (m m' : Traced α) (L S : Nat → Prop) : Prop where
  loads : ∀ c, c ∈ m'.loads ↔ c ∈ m.loads ∨ L c
  stores : ∀ c, c ∈ m'.stores ↔ c ∈ m.stores ∨ S c
  others : ∀ c, ¬ S c → m'.cells c = m.cells c

variable {m m' m'' : Traced α} {L L' S S' : Nat → Prop}

theorem touches_refl (m : Traced α) : Touches m m (fun _ => False) fun _ => False := by
  constructor
  · intro c
    rw [or_false]
  · intro c
    rw [or_false]
  · intro c _
    rfl

theorem Touches.trans (h : Touches m m' L S) (h' : Touches m' m'' L' S') :
    Touches m m'' (fun c => L c ∨ L' c) fun c => S c ∨ S' c := by
  constructor
  · intro c
    rw [h'.loads, h.loads, or_assoc]
  · intro c
    rw [h'.stores, h.stores, or_assoc]
  · intro c hc
    obtain ⟨hS, hS'⟩ := not_or.mp hc
    rw [h'.others c hS', h.others c hS]

theorem Touches.congr (h : Touches m m' L S) (hL : ∀ c, L' c ↔ L c) (hS : ∀ c, S' c ↔ S c) :
    Touches m m' L' S' := by
  constructor
  · intro c
    rw [h.loads, hL]
  · intro c
    rw [h.stores, hS]
  · intro c hc
    exact h.others c fun hin => hc ((hS c).mpr hin)

theorem touches_load (m : Traced α) (base len : Nat) :
    Touches m (m.load base len).2 (fun c => base ≤ c ∧ c < base + len) fun _ => False := by
  constructor
  · intro c
    simp [load, List.mem_range'_1]
  · intro c
    rw [or_false]
    rfl
  · intro c _
    rfl

theorem touches_store (m : Traced α) (base len : Nat) (f : Nat → α) :
    Touches m (m.store base len f) (fun _ => False) fun c => base ≤ c ∧ c < base + len := by
  constructor
  · intro c
    rw [or_false]
    rfl
  · intro c
    simp [store, List.mem_range'_1]
  · intro c hc
    exact if_neg hc

theorem touches_rewrite (f : List α → Nat → α) (len : Nat) (m : Traced α) (base : Nat) :
    Touches m (rewrite f len m base) (fun c => base ≤ c ∧ c < base + len)
      fun c => base ≤ c ∧ c < base + len :=
  ((touches_load m base len).trans (touches_store _ base len _)).congr
    (fun c => by rw [or_false]) (fun c => by rw [false_or])

/-- A loop touches what its steps touch. -/
theorem Touches.foldl {step : Traced α → β → Traced α} {L S : β → Nat → Prop}
    (hstep : ∀ m b, Touches m (step m b) (L b) (S b)) (bs : List β) (m : Traced α) :
    Touches m (bs.foldl step m) (fun c => ∃ b ∈ bs, L b c) fun c => ∃ b ∈ bs, S b c := by
  induction bs generalizing m with
  | nil => exact (touches_refl m).congr (fun c => by simp) (fun c => by simp)
  | cons b bs ih =>
    exact ((hstep m b).trans (ih (step m b))).congr (fun c => List.exists_mem_cons_iff ..)
      (fun c => List.exists_mem_cons_iff ..)

end Traced

end TruellmEngine.Lib
