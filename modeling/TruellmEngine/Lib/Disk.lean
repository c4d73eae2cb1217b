/-
  A file system as names for inodes, and inodes for contents: what `open` with truncation,
  writes at the start of an open file, `rename` and `remove` do. An open file keeps its
  inode, whatever becomes of its name. Every inode has at most one name, which is a field of
  the structure.

  One lemma for each operation says what it leaves of the other files.
-/
import Mathlib.Data.List.Basic

namespace TruellmEngine.Lib

/-- The inode of a file that was there at the start, or one made later. -/
inductive Inode (Path : Type) where
  | initial (p : Path)
  | created (n : Nat)
deriving DecidableEq

structure Disk (Path : Type) where
  names : Path → Option (Inode Path)
  data : Inode Path → List UInt8
  next : Nat
  single : ∀ p q i, names p = some i → names q = some i → p = q
  bound : ∀ p n, names p = some (.created n) → n < next

namespace Disk

variable {Path : Type}

/-- The disk with these files. -/
def ofFiles (files : Path → Option (List UInt8)) : Disk Path where
  names := fun p => (files p).map fun _ => .initial p
  data
    | .initial p => (files p).getD []
    | .created _ => []
  next := 0
  single := by
    intro p q i hp hq
    obtain ⟨_, -, rfl⟩ := Option.map_eq_some_iff.mp hp
    obtain ⟨_, -, heq⟩ := Option.map_eq_some_iff.mp hq
    cases heq
    rfl
  bound := by
    intro p n hp
    obtain ⟨_, -, heq⟩ := Option.map_eq_some_iff.mp hp
    cases heq

def contents (d : Disk Path) (p : Path) : Option (List UInt8) := (d.names p).map d.data

theorem contents_eq_none {d : Disk Path} {p : Path} : d.contents p = none ↔ d.names p = none :=
  Option.map_eq_none_iff

theorem ofFiles_contents (files : Path → Option (List UInt8)) (p : Path) :
    (ofFiles files).contents p = files p := by
  unfold contents ofFiles
  dsimp only
  cases h : files p with
  | none => rfl
  | some bytes =>
    show some ((files p).getD []) = some bytes
    rw [h]
    rfl

variable [DecidableEq Path] (d : Disk Path) (p q : Path) (i : Inode Path)

/-- Write over the head of an open file. -/
def overwrite (bytes : List UInt8) : Disk Path :=
  { d with data := fun j => if j = i then bytes ++ (d.data i).drop bytes.length else d.data j }

/-- A new, empty file. -/
def create : Disk Path where
  names := fun x => if x = p then some (.created d.next) else d.names x
  data := fun j => if j = .created d.next then [] else d.data j
  next := d.next + 1
  single := by
    intro x y i hx hy
    split at hx
    · split at hy
      · rename_i h1 h2
        rw [h1, h2]
      · cases hx
        exact absurd (d.bound y d.next hy) (Nat.lt_irrefl _)
    · split at hy
      · cases hy
        exact absurd (d.bound x d.next hx) (Nat.lt_irrefl _)
      · exact d.single x y i hx hy
  bound := by
    intro x n hx
    split at hx
    · cases hx
      exact Nat.lt_succ_self _
    · exact Nat.lt_succ_of_lt (d.bound x n hx)

/-- `open` with truncation: the inode, and the disk. -/
def openTruncated : Inode Path × Disk Path :=
  match d.names p with
  | some i => (i, { d with data := fun j => if j = i then [] else d.data j })
  | none => (.created d.next, d.create p)

def rename : Disk Path where
  names := fun x => if x = q then d.names p else if x = p then none else d.names x
  data := d.data
  next := d.next
  single := by
    intro x y i hx hy
    split at hx
    · split at hy
      · rename_i h1 h2
        rw [h1, h2]
      · split at hy
        · cases hy
        · rename_i hyp
          exact absurd (d.single y p i hy hx) hyp
    · split at hx
      · cases hx
      · rename_i hxp
        split at hy
        · exact absurd (d.single x p i hx hy) hxp
        · split at hy
          · cases hy
          · exact d.single x y i hx hy
  bound := by
    intro x n hx
    split at hx
    · exact d.bound p n hx
    · split at hx
      · cases hx
      · exact d.bound x n hx

def remove : Disk Path where
  names := fun x => if x = p then none else d.names x
  data := d.data
  next := d.next
  single := by
    intro x y i hx hy
    split at hx
    · cases hx
    · split at hy
      · cases hy
      · exact d.single x y i hx hy
  bound := by
    intro x n hx
    split at hx
    · cases hx
    · exact d.bound x n hx

variable {d p q i}

/-! ## What an operation leaves -/

@[simp] theorem overwrite_names (bytes : List UInt8) : (d.overwrite i bytes).names = d.names := rfl

@[simp] theorem overwrite_next (bytes : List UInt8) : (d.overwrite i bytes).next = d.next := rfl

/-- Only the file of this name is written. -/
theorem overwrite_contents (hp : d.names p = some i) {x : Path} (hx : x ≠ p)
    (bytes : List UInt8) : (d.overwrite i bytes).contents x = d.contents x := by
  unfold contents
  rw [overwrite_names]
  cases hname : d.names x with
  | none => rfl
  | some j =>
    have hne : j ≠ i := by
      rintro rfl
      exact hx (d.single x p j hname hp)
    exact congrArg some (if_neg hne)

theorem openTruncated_of_free (h : d.names p = none) :
    d.openTruncated p = (.created d.next, d.create p) := by
  unfold openTruncated
  rw [h]

theorem create_names_self : (d.create p).names p = some (.created d.next) := if_pos rfl

theorem create_names {x : Path} (hx : x ≠ p) : (d.create p).names x = d.names x := if_neg hx

theorem create_contents {x : Path} (hx : x ≠ p) : (d.create p).contents x = d.contents x := by
  unfold contents
  rw [create_names hx]
  cases hname : d.names x with
  | none => rfl
  | some j =>
    have hne : j ≠ .created d.next := by
      rintro rfl
      exact absurd (d.bound x d.next hname) (Nat.lt_irrefl _)
    exact congrArg some (if_neg hne)

theorem rename_names_target : (d.rename p q).names q = d.names p := if_pos rfl

theorem rename_names_source (hpq : p ≠ q) : (d.rename p q).names p = none := by
  unfold rename
  dsimp only
  rw [if_neg hpq, if_pos rfl]

theorem rename_names {x : Path} (hp : x ≠ p) (hq : x ≠ q) :
    (d.rename p q).names x = d.names x := by
  unfold rename
  dsimp only
  rw [if_neg hq, if_neg hp]

theorem rename_contents {x : Path} (hp : x ≠ p) (hq : x ≠ q) :
    (d.rename p q).contents x = d.contents x := by
  unfold contents
  rw [rename_names hp hq]
  rfl

theorem rename_contents_target : (d.rename p q).contents q = d.contents p := by
  unfold contents
  rw [rename_names_target]
  rfl

theorem remove_names_self : (d.remove p).names p = none := if_pos rfl

theorem remove_names {x : Path} (hx : x ≠ p) : (d.remove p).names x = d.names x := if_neg hx

theorem remove_contents {x : Path} (hx : x ≠ p) : (d.remove p).contents x = d.contents x := by
  unfold contents
  rw [remove_names hx]
  rfl

end Disk

end TruellmEngine.Lib
