/-
  A vector that moves its elements when it grows, and pointers to them. A pointer knows the
  storage it points into. Once the vector has taken new storage, or has been cleared, no
  pointer from before points to anything.

  The growth policy is a parameter: the capacity that a full vector asks for.
-/
import Mathlib.Data.List.Basic

namespace TruellmEngine.Lib

structure Pointer where
  storage : Nat
  index : Nat
deriving DecidableEq

structure MovingVector (α : Type) where
  items : List α := []
  capacity : Nat := 0
  /-- How often the vector has taken new storage. -/
  storage : Nat := 0

namespace MovingVector

variable {α : Type} (v : MovingVector α) (p q : Pointer) (x : α)

/-- What the pointer points to. -/
def get? : Option α := if p.storage = v.storage then v.items[p.index]? else none

def set : MovingVector α :=
  if p.storage = v.storage then { v with items := v.items.set p.index x } else v

def HasRoom : Prop := v.items.length < v.capacity

instance : Decidable v.HasRoom := inferInstanceAs (Decidable (_ < _))

/-- `&v.emplace_back(x)` -/
def emplaceBack (grow : Nat → Nat) : Pointer × MovingVector α :=
  if v.HasRoom then (⟨v.storage, v.items.length⟩, { v with items := v.items ++ [x] })
  else (⟨v.storage + 1, v.items.length⟩,
    { items := v.items ++ [x]
      capacity := max (v.items.length + 1) (grow v.items.length)
      storage := v.storage + 1 })

def popBack : MovingVector α := { v with items := v.items.dropLast }

def clear : MovingVector α := { v with items := [], storage := v.storage + 1 }

def map (f : α → α) : MovingVector α := { v with items := v.items.map f }

/-- The pointer was made for an element, which has not been popped. -/
def Issued : Prop := p.storage < v.storage ∨ p.storage = v.storage ∧ p.index < v.items.length

variable {v p q x} {grow : Nat → Nat}

/-- A pointer from before the vector took new storage. -/
theorem Issued.older (h : v.Issued p) : p.storage < v.storage + 1 :=
  h.elim Nat.lt_succ_of_lt fun hp => Nat.lt_succ_of_le (Nat.le_of_eq hp.1)

theorem Issued.ne_succ (h : v.Issued p) : p.storage ≠ v.storage + 1 := Nat.ne_of_lt h.older

/-- A pointer into the present storage points to an element. -/
theorem Issued.lt_length (h : v.Issued p) (hstorage : p.storage = v.storage) :
    p.index < v.items.length :=
  h.elim (fun hlt => absurd hstorage (Nat.ne_of_lt hlt)) And.right

theorem Issued.set (h : v.Issued p) : (v.set q x).Issued p := by
  unfold MovingVector.set
  split
  · unfold Issued
    dsimp only
    rw [List.length_set]
    exact h
  · exact h

theorem Issued.map (h : v.Issued p) (f : α → α) : (v.map f).Issued p := by
  unfold Issued MovingVector.map
  dsimp only
  rw [List.length_map]
  exact h

theorem Issued.clear (h : v.Issued p) : v.clear.Issued p := Or.inl h.older

/-- An older pointer is not the new one. -/
theorem Issued.ne_emplaceBack (h : v.Issued p) : p ≠ (v.emplaceBack x grow).1 := by
  unfold emplaceBack
  rintro rfl
  split at h
  · exact Nat.lt_irrefl _ (h.lt_length rfl)
  · exact h.ne_succ rfl

theorem Issued.emplaceBack (h : v.Issued p) : (v.emplaceBack x grow).2.Issued p := by
  unfold MovingVector.emplaceBack
  split
  · refine h.imp_right fun hp => ⟨hp.1, ?_⟩
    dsimp only
    rw [List.length_append]
    exact Nat.lt_add_right _ hp.2
  · exact Or.inl h.older

theorem issued_emplaceBack : (v.emplaceBack x grow).2.Issued (v.emplaceBack x grow).1 := by
  unfold emplaceBack
  split <;> exact Or.inr ⟨rfl, by simp⟩

/-- An element that does not stay invalidates pointers by the growth only. -/
theorem Issued.emplaceBack_popBack (h : v.Issued p) :
    (v.emplaceBack x grow).2.popBack.Issued p := by
  unfold MovingVector.emplaceBack popBack
  split
  · unfold Issued
    dsimp only
    rw [List.dropLast_concat]
    exact h
  · exact Or.inl h.older

theorem get?_set_self : (v.set p x).get? p = (v.get? p).map fun _ => x := by
  unfold get? set
  split
  · exact List.getElem?_set_self'
  · rfl

theorem get?_set_ne (h : p ≠ q) : (v.set p x).get? q = v.get? q := by
  unfold set
  split
  · rename_i hp
    unfold get?
    dsimp only
    split
    · rename_i hq
      have hindex : p.index ≠ q.index := by
        intro heq
        have hstorage : p.storage = q.storage := hp.trans hq.symm
        cases p
        cases q
        exact h (by simp_all)
      exact List.getElem?_set_ne hindex
    · rfl
  · rfl

theorem hasRoom_set : (v.set p x).HasRoom ↔ v.HasRoom := by
  unfold set HasRoom
  split
  · rw [List.length_set]
  · exact Iff.rfl

theorem get?_map (f : α → α) : (v.map f).get? p = (v.get? p).map f := by
  unfold get? map
  dsimp only
  split
  · exact List.getElem?_map
  · rfl

theorem get?_clear (h : v.Issued p) : v.clear.get? p = none := if_neg h.ne_succ

theorem get?_emplaceBack_self :
    (v.emplaceBack x grow).2.get? (v.emplaceBack x grow).1 = some x := by
  unfold emplaceBack
  split <;> simp [get?]

/-- What growth leaves of an older pointer. -/
theorem get?_emplaceBack (h : v.Issued p) :
    (v.emplaceBack x grow).2.get? p = if v.HasRoom then v.get? p else none := by
  unfold emplaceBack
  split
  · unfold get?
    dsimp only
    split
    · rename_i hstorage
      exact List.getElem?_append_left (h.lt_length hstorage)
    · rfl
  · exact if_neg h.ne_succ

theorem get?_emplaceBack_popBack (h : v.Issued p) :
    (v.emplaceBack x grow).2.popBack.get? p = if v.HasRoom then v.get? p else none := by
  unfold emplaceBack popBack
  split
  · unfold get?
    dsimp only
    rw [List.dropLast_concat]
  · exact if_neg h.ne_succ

end MovingVector

end TruellmEngine.Lib
