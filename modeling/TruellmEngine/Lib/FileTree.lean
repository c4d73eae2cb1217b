/-
  A tree of directories and files, with the calls of a POSIX system on it, and the calls that
  keep to the subtree of one name of the root.

  A path is a list of names, from the root of the tree. That every entry lies in a directory,
  and that a directory lists exactly its entries, are fields of the tree. The calls are
  `StateM` programs over it; whether the system refuses one for a reason outside the tree is
  an argument of the call.

  `Keeps c a f` says that `f` does the same in two trees that agree below `a` and leaves
  everything below the other names alone. `Spares q f` says that `f` leaves a file at `q` as
  it is, `Leads P f Q` that from `P` it leads to `Q`. All three go along with sequencing
  (`Keeps.bind`, `Spares.bind`, `Leads.bind`), so a program has them when its calls have.
-/
import Mathlib.Data.List.Nodup
import Mathlib.Logic.Function.Basic

namespace TruellmEngine.Lib

inductive FileNode where
  | directory
  | file (bytes : List UInt8)
deriving DecidableEq

structure FileTree (α : Type) where
  node : List α → Option FileNode
  names : List α → List α
  listed : ∀ p n, n ∈ names p ↔ node (p ++ [n]) ≠ none
  parent : ∀ p n, node (p ++ [n]) ≠ none → node p = some .directory
  nodup : ∀ p, (names p).Nodup

namespace FileTree

variable {α β γ : Type}

/-- Nothing, not even a root. -/
def absent : FileTree α where
  node := fun _ => none
  names := fun _ => []
  listed := by simp
  parent := fun _ _ h => absurd rfl h
  nodup := fun _ => List.nodup_nil

/-- Only a directory has entries. -/
theorem names_eq_nil {t : FileTree α} {p : List α} (h : t.node p ≠ some .directory) :
    t.names p = [] := by
  refine List.eq_nil_iff_forall_not_mem.mpr ?_
  intro n hn
  exact h (t.parent p n ((t.listed p n).mp hn))

/-! ## Keeping to one name of the root -/

variable {c : Bool} {a b : α}

/-- The same below `a`. The roots agree, or only the second tree lacks a root, and may get
    one. -/
structure Agree (c : Bool) (a : α) (t u : FileTree α) : Prop where
  node : ∀ q, t.node (a :: q) = u.node (a :: q)
  names : ∀ q, t.names (a :: q) = u.names (a :: q)
  root : t.node [] = u.node [] ∨
    c = true ∧ t.node [] = some .directory ∧ u.node [] = none

/-- `f` reads and changes what is below `a`. -/
structure Keeps (c : Bool) (a : α) (f : StateM (FileTree α) β) : Prop where
  own : ∀ t u, Agree c a t u → (f.run t).1 = (f.run u).1 ∧ Agree c a (f.run t).2 (f.run u).2
  other : ∀ b, b ≠ a → ∀ t u, Agree c b t u → Agree c b (f.run t).2 u

theorem agree_refl (t : FileTree α) : Agree c a t t := ⟨fun _ => rfl, fun _ => rfl, Or.inl rfl⟩

theorem Keeps.pure (x : β) : Keeps c a (pure x : StateM (FileTree α) β) :=
  ⟨fun _ _ h => ⟨rfl, h⟩, fun _ _ _ _ h => h⟩

theorem Keeps.bind {f : StateM (FileTree α) β} {g : β → StateM (FileTree α) γ}
    (hf : Keeps c a f) (hg : ∀ x, Keeps c a (g x)) : Keeps c a (f >>= g) := by
  constructor
  · intro t u h
    obtain ⟨hsame, hagree⟩ := hf.own t u h
    have hnext := (hg (f.run t).1).own _ _ hagree
    change ((g (f.run t).1).run (f.run t).2).1 = ((g (f.run u).1).run (f.run u).2).1 ∧
      Agree c a ((g (f.run t).1).run (f.run t).2).2 ((g (f.run u).1).run (f.run u).2).2
    rw [← hsame]
    exact hnext
  · intro b hb t u h
    exact (hg _).other b hb _ u (hf.other b hb t u h)

theorem run_cond (f : StateM (FileTree α) Bool) (g g' : StateM (FileTree α) β)
    (t : FileTree α) :
    (do if ← f then g else g').run t =
      if (f.run t).1 then g.run (f.run t).2 else g'.run (f.run t).2 := by
  change (if (f.run t).1 = true then g else g').run (f.run t).2 = _
  split <;> rfl

/-- A program that first looks and then does one of two things. -/
theorem Keeps.cond {f : StateM (FileTree α) Bool} {g g' : StateM (FileTree α) β}
    (hf : Keeps c a f) (hg : Keeps c a g) (hg' : Keeps c a g') :
    Keeps c a (do if ← f then g else g') :=
  hf.bind fun x => by cases x <;> assumption

variable [DecidableEq α]

/-- The listing `ns` of a directory whose entry `n` becomes `v`. -/
def relist (ns : List α) (n : α) (v : Option FileNode) : List α :=
  if v = none then ns.erase n else if n ∈ ns then ns else ns ++ [n]

/-- The entry `n` of the directory `p` becomes `v`; `none` takes it away. -/
def setEntry (t : FileTree α) (p : List α) (n : α) (v : Option FileNode)
    (hparent : v ≠ none → t.node p = some .directory)
    (hempty : v ≠ some .directory → t.names (p ++ [n]) = []) : FileTree α where
  node := Function.update t.node (p ++ [n]) v
  names := Function.update t.names p (relist (t.names p) n v)
  listed := by
    intro q m
    by_cases hq : q = p
    · subst hq
      rw [Function.update_self, relist]
      by_cases hm : m = n
      · subst hm
        rw [Function.update_self]
        split
        · rename_i hv
          simp [hv, (t.nodup q).mem_erase_iff]
        · rename_i hv
          split <;> simp_all
      · have hne : q ++ [m] ≠ q ++ [n] := by simpa using hm
        rw [Function.update_of_ne hne, ← t.listed q m]
        split
        · simp [(t.nodup q).mem_erase_iff, hm]
        · split
          · rfl
          · simp [hm]
    · have hne : q ++ [m] ≠ p ++ [n] := fun h => hq (List.append_inj_left' h rfl)
      rw [Function.update_of_ne hq, Function.update_of_ne hne]
      exact t.listed q m
  parent := by
    intro q m h
    by_cases hq : q ++ [m] = p ++ [n]
    · obtain rfl := List.append_inj_left' hq rfl
      rw [hq, Function.update_self] at h
      have hne : q ≠ q ++ [n] := fun heq => by simpa using congrArg List.length heq
      rw [Function.update_of_ne hne]
      exact hparent h
    · rw [Function.update_of_ne hq] at h
      have hdir := t.parent q m h
      by_cases hself : q = p ++ [n]
      · subst hself
        rw [Function.update_self]
        by_contra hv
        have hm := (t.listed (p ++ [n]) m).mpr h
        rw [hempty hv] at hm
        cases hm
      · rw [Function.update_of_ne hself]
        exact hdir
  nodup := by
    intro q
    by_cases hq : q = p
    · subst hq
      rw [Function.update_self, relist]
      split
      · exact (t.nodup q).erase n
      · split
        · exact t.nodup q
        · rename_i hn
          exact (t.nodup q).append (List.nodup_singleton n)
            (List.disjoint_singleton.mpr hn)
    · rw [Function.update_of_ne hq]
      exact t.nodup q

/-- The root becomes a directory, if there was nothing. -/
def setRoot (t : FileTree α) (h : t.node [] = none) : FileTree α where
  node := Function.update t.node [] (some .directory)
  names := t.names
  listed := by
    intro q m
    rw [Function.update_of_ne (List.append_ne_nil_of_right_ne_nil q (List.cons_ne_nil m []))]
    exact t.listed q m
  parent := by
    intro q m hm
    rw [Function.update_of_ne (List.append_ne_nil_of_right_ne_nil q (List.cons_ne_nil m []))] at hm
    have hdir := t.parent q m hm
    have hq : q ≠ [] := fun hq => by rw [hq, h] at hdir; cases hdir
    rw [Function.update_of_ne hq]
    exact hdir
  nodup := t.nodup

/-! ## The calls -/

/-- `mkdir` of the root, where nothing is there; whether the root is a directory now. -/
def makeRoot (ok : Bool) : StateM (FileTree α) Bool := fun t =>
  if h : t.node [] = none ∧ ok = true then (true, t.setRoot h.1)
  else (t.node [] == some .directory, t)

/-- `mkdir`, where nothing is there; whether the entry is a directory now. -/
def makeDir (ok : Bool) (p : List α) (n : α) : StateM (FileTree α) Bool := fun t =>
  match t.node (p ++ [n]) with
  | some .directory => (true, t)
  | some (.file _) => (false, t)
  | none =>
    if h : t.node p = some .directory ∧ ok = true then
      (true, t.setEntry p n (some .directory) (fun _ => h.1) (fun hne => absurd rfl hne))
    else (false, t)

/-- The directories `p`, `p/n₁`, `p/n₁/n₂` and so on, up to the first that cannot be made. -/
def makeDirs (ok : List α → Bool) : List α → List α → StateM (FileTree α) Bool
  | _, [] => pure true
  | p, n :: ns => do
    if ← makeDir (ok (p ++ [n])) p n then makeDirs ok (p ++ [n]) ns else pure false

/-- `create_directories` -/
def createDirectories (ok : List α → Bool) (p : List α) : StateM (FileTree α) Bool := do
  if ← makeRoot (ok []) then makeDirs ok [] p else pure false

/-- What is at a path. -/
def status (p : List α) : StateM (FileTree α) (Option FileNode) := fun t => (t.node p, t)

/-- The names of a directory's entries. -/
def list (p : List α) : StateM (FileTree α) (List α) := fun t => (t.names p, t)

/-- A file with these bytes, made or written over. -/
def putFile (p : List α) (n : α) (bytes : List UInt8) : StateM (FileTree α) Bool := fun t =>
  if h : t.node p = some .directory ∧ t.node (p ++ [n]) ≠ some .directory then
    (true, t.setEntry p n (some (.file bytes)) (fun _ => h.1) (fun _ => names_eq_nil h.2))
  else (false, t)

/-- `remove`, of a file or an empty directory; whether anything was removed. -/
def removeEntry (p : List α) (n : α) : StateM (FileTree α) Bool := fun t =>
  if h : t.node (p ++ [n]) ≠ none ∧ t.names (p ++ [n]) = [] then
    (true, t.setEntry p n none (fun hne => absurd rfl hne) (fun _ => h.2))
  else (false, t)

/-- `rename`, of a file within its directory. -/
def renameFile (p : List α) (a b : α) : StateM (FileTree α) Bool := do
  match ← status (p ++ [a]) with
  | some (.file bytes) => if ← putFile p b bytes then removeEntry p a else pure false
  | _ => pure false

/-! ## One step of a call -/

section Run

variable (t : FileTree α) (ok : Bool) (p : List α) (n : α)

theorem makeRoot_run : (makeRoot ok).run t =
    if h : t.node [] = none ∧ ok = true then (true, t.setRoot h.1)
    else (t.node [] == some .directory, t) := rfl

theorem makeDir_run : (makeDir ok p n).run t =
    match t.node (p ++ [n]) with
    | some .directory => (true, t)
    | some (.file _) => (false, t)
    | none =>
      if h : t.node p = some .directory ∧ ok = true then
        (true, t.setEntry p n (some .directory) (fun _ => h.1) (fun hne => absurd rfl hne))
      else (false, t) := rfl

theorem putFile_run (bytes : List UInt8) : (putFile p n bytes).run t =
    if h : t.node p = some .directory ∧ t.node (p ++ [n]) ≠ some .directory then
      (true, t.setEntry p n (some (.file bytes)) (fun _ => h.1) (fun _ => names_eq_nil h.2))
    else (false, t) := rfl

theorem removeEntry_run : (removeEntry p n).run t =
    if h : t.node (p ++ [n]) ≠ none ∧ t.names (p ++ [n]) = [] then
      (true, t.setEntry p n none (fun hne => absurd rfl hne) (fun _ => h.2))
    else (false, t) := rfl

end Run

/-! ## The calls keep to their name -/

section Entry

variable {t u t' u' : FileTree α} {p q : List α} {n : α} {v : Option FileNode}

/-- `t'` is `t` with the entry `n` of `p` set to `v`. -/
structure IsSet (t : FileTree α) (p : List α) (n : α) (v : Option FileNode)
    (t' : FileTree α) : Prop where
  node : t'.node = Function.update t.node (p ++ [n]) v
  names : t'.names = Function.update t.names p (relist (t.names p) n v)

theorem IsSet.root (h : IsSet t p n v t') : t'.node [] = t.node [] := by
  have hne : [] ≠ p ++ [n] := by simp
  rw [h.node, Function.update_of_ne hne]

theorem Agree.set (h : Agree c a t u) (hp : p ++ [n] = a :: q) (ht : IsSet t p n v t')
    (hu : IsSet u p n v u') : Agree c a t' u' := by
  refine ⟨?_, ?_, ?_⟩
  · intro r
    rw [ht.node, hu.node]
    by_cases hr : a :: r = p ++ [n]
    · rw [hr, Function.update_self, Function.update_self]
    · rw [Function.update_of_ne hr, Function.update_of_ne hr]
      exact h.node r
  · intro r
    rw [ht.names, hu.names]
    by_cases hr : a :: r = p
    · subst hr
      rw [Function.update_self, Function.update_self, h.names r]
    · rw [Function.update_of_ne hr, Function.update_of_ne hr]
      exact h.names r
  · rw [ht.root, hu.root]
    exact h.root

theorem Agree.set_other (h : Agree c b t u) (hb : b ≠ a) (hp : p ++ [n] = a :: q)
    (ht : IsSet t p n v t') : Agree c b t' u := by
  refine ⟨?_, ?_, ?_⟩
  · intro r
    have hr : b :: r ≠ p ++ [n] := fun heq => hb (List.cons.inj (heq.trans hp)).1
    rw [ht.node, Function.update_of_ne hr]
    exact h.node r
  · intro r
    have hr : b :: r ≠ p := by
      rintro rfl
      exact hb (List.cons.inj hp).1
    rw [ht.names, Function.update_of_ne hr]
    exact h.names r
  · rw [ht.root]
    exact h.root

end Entry

section Calls

variable {t u : FileTree α} {p q r : List α} {n : α}

omit [DecidableEq α] in
theorem keeps_status (q : List α) : Keeps c a (status (a :: q)) :=
  ⟨fun _ _ h => ⟨h.node q, h⟩, fun _ _ _ _ h => h⟩

omit [DecidableEq α] in
theorem keeps_list (q : List α) : Keeps c a (list (a :: q)) :=
  ⟨fun _ _ h => ⟨h.names q, h⟩, fun _ _ _ _ h => h⟩

/-- `mkdir` of an entry below `a`, in a directory that both trees have or neither has. -/
theorem makeDir_own (ok : Bool) (h : Agree c a t u) (hp : p ++ [n] = a :: q)
    (hdir : t.node p = u.node p) :
    ((makeDir ok p n).run t).1 = ((makeDir ok p n).run u).1 ∧
      Agree c a ((makeDir ok p n).run t).2 ((makeDir ok p n).run u).2 := by
  have hnode : t.node (p ++ [n]) = u.node (p ++ [n]) := by
    rw [hp]
    exact h.node q
  rw [makeDir_run, makeDir_run, hnode]
  rcases u.node (p ++ [n]) with _ | _ | bytes
  · by_cases hok : t.node p = some .directory ∧ ok = true
    · have hok' : u.node p = some .directory ∧ ok = true := hdir ▸ hok
      dsimp only
      rw [dif_pos hok, dif_pos hok']
      exact ⟨rfl, h.set hp ⟨rfl, rfl⟩ ⟨rfl, rfl⟩⟩
    · have hok' : ¬ (u.node p = some .directory ∧ ok = true) := hdir ▸ hok
      dsimp only
      rw [dif_neg hok, dif_neg hok']
      exact ⟨rfl, h⟩
  · exact ⟨rfl, h⟩
  · exact ⟨rfl, h⟩

theorem makeDir_other (ok : Bool) (h : Agree c b t u) (hb : b ≠ a) (hp : p ++ [n] = a :: q) :
    Agree c b ((makeDir ok p n).run t).2 u := by
  rw [makeDir_run]
  split
  · exact h
  · exact h
  · split
    · exact h.set_other hb hp ⟨rfl, rfl⟩
    · exact h

theorem keeps_makeDir (ok : Bool) (n : α) : Keeps c a (makeDir ok (a :: r) n) :=
  ⟨fun _ _ h => makeDir_own ok h rfl (h.node r), fun _ hb _ _ h => makeDir_other ok h hb rfl⟩

theorem keeps_makeDirs (ok : List α → Bool) (ns : List α) :
    Keeps c a (makeDirs ok (a :: r) ns) := by
  induction ns generalizing r with
  | nil => exact Keeps.pure true
  | cons n ns ih => exact (keeps_makeDir _ n).cond ih (Keeps.pure false)

theorem keeps_putFile (n : α) (bytes : List UInt8) : Keeps c a (putFile (a :: r) n bytes) := by
  constructor
  · intro t u h
    have hdir : t.node (a :: r) = u.node (a :: r) := h.node r
    have hnode : t.node (a :: r ++ [n]) = u.node (a :: r ++ [n]) := h.node (r ++ [n])
    rw [putFile_run, putFile_run]
    by_cases hok : t.node (a :: r) = some .directory ∧ t.node (a :: r ++ [n]) ≠ some .directory
    · have hok' := hok
      rw [hdir, hnode] at hok'
      rw [dif_pos hok, dif_pos hok']
      exact ⟨rfl, h.set rfl ⟨rfl, rfl⟩ ⟨rfl, rfl⟩⟩
    · have hok' := hok
      rw [hdir, hnode] at hok'
      rw [dif_neg hok, dif_neg hok']
      exact ⟨rfl, h⟩
  · intro b hb t u h
    rw [putFile_run]
    split
    · exact h.set_other hb rfl ⟨rfl, rfl⟩
    · exact h

theorem keeps_removeEntry (n : α) : Keeps c a (removeEntry (a :: r) n) := by
  constructor
  · intro t u h
    have hnode : t.node (a :: r ++ [n]) = u.node (a :: r ++ [n]) := h.node (r ++ [n])
    have hnames : t.names (a :: r ++ [n]) = u.names (a :: r ++ [n]) := h.names (r ++ [n])
    rw [removeEntry_run, removeEntry_run]
    by_cases hok : t.node (a :: r ++ [n]) ≠ none ∧ t.names (a :: r ++ [n]) = []
    · have hok' := hok
      rw [hnode, hnames] at hok'
      rw [dif_pos hok, dif_pos hok']
      exact ⟨rfl, h.set rfl ⟨rfl, rfl⟩ ⟨rfl, rfl⟩⟩
    · have hok' := hok
      rw [hnode, hnames] at hok'
      rw [dif_neg hok, dif_neg hok']
      exact ⟨rfl, h⟩
  · intro b hb t u h
    rw [removeEntry_run]
    split
    · exact h.set_other hb rfl ⟨rfl, rfl⟩
    · exact h

theorem keeps_renameFile (n m : α) : Keeps c a (renameFile (a :: r) n m) := by
  refine (keeps_status (r ++ [n])).bind ?_
  rintro (_ | _ | bytes)
  · exact Keeps.pure false
  · exact Keeps.pure false
  · exact (keeps_putFile m bytes).cond (keeps_removeEntry n) (Keeps.pure false)

theorem setRoot_below (h : t.node [] = none) (q : List α) :
    (t.setRoot h).node (a :: q) = t.node (a :: q) := by
  simp [FileTree.setRoot]

theorem setRoot_root (h : t.node [] = none) : (t.setRoot h).node [] = some .directory := by
  simp [FileTree.setRoot]

/-- Behind `mkdir` of the root both trees have one, or neither has. -/
theorem makeRoot_own (h : Agree c a t u) :
    ((makeRoot c).run t).1 = ((makeRoot c).run u).1 ∧
      Agree c a ((makeRoot c).run t).2 ((makeRoot c).run u).2 ∧
      ((makeRoot c).run t).2.node [] = ((makeRoot c).run u).2.node [] := by
  rw [makeRoot_run, makeRoot_run]
  rcases h.root with hroot | ⟨rfl, ht, hu⟩
  · by_cases hnone : t.node [] = none ∧ c = true
    · have hnone' : u.node [] = none ∧ c = true := hroot ▸ hnone
      rw [dif_pos hnone, dif_pos hnone']
      have hrooted : (t.setRoot hnone.1).node [] = (u.setRoot hnone'.1).node [] :=
        (setRoot_root _).trans (setRoot_root _).symm
      refine ⟨rfl, ⟨?_, h.names, Or.inl hrooted⟩, hrooted⟩
      intro q
      exact (setRoot_below hnone.1 q).trans ((h.node q).trans (setRoot_below hnone'.1 q).symm)
    · have hnone' : ¬ (u.node [] = none ∧ c = true) := hroot ▸ hnone
      rw [dif_neg hnone, dif_neg hnone']
      exact ⟨by rw [hroot], h, hroot⟩
  · have hnone : ¬ (t.node [] = none ∧ true = true) := by simp [ht]
    rw [dif_neg hnone, dif_pos ⟨hu, rfl⟩]
    have hrooted : t.node [] = (u.setRoot hu).node [] := ht.trans (setRoot_root hu).symm
    refine ⟨by simp [ht], ⟨?_, h.names, Or.inl hrooted⟩, hrooted⟩
    intro q
    exact (h.node q).trans (setRoot_below hu q).symm

theorem makeRoot_other (h : Agree c b t u) : Agree c b ((makeRoot c).run t).2 u := by
  rw [makeRoot_run]
  split
  · rename_i hnone
    refine ⟨fun q => (setRoot_below hnone.1 q).trans (h.node q), h.names, ?_⟩
    rcases h.root with hroot | ⟨-, hdir, -⟩
    · exact Or.inr ⟨hnone.2, setRoot_root hnone.1, hroot.symm.trans hnone.1⟩
    · rw [hnone.1] at hdir
      cases hdir
  · exact h

/-- The directories below a root that both trees have or neither has. -/
theorem makeDirs_own (ok : List α → Bool) (ns : List α) (h : Agree c a t u)
    (hroot : t.node [] = u.node []) :
    ((makeDirs ok [] (a :: ns)).run t).1 = ((makeDirs ok [] (a :: ns)).run u).1 ∧
      Agree c a ((makeDirs ok [] (a :: ns)).run t).2 ((makeDirs ok [] (a :: ns)).run u).2 := by
  obtain ⟨hsame, hagree⟩ := makeDir_own (ok [a]) h (List.nil_append [a]) hroot
  unfold makeDirs
  rw [run_cond, run_cond, List.nil_append, ← hsame]
  split
  · exact (keeps_makeDirs ok ns).own _ _ hagree
  · exact ⟨rfl, hagree⟩

theorem makeDirs_other (ok : List α → Bool) (ns : List α) (h : Agree c b t u) (hb : b ≠ a) :
    Agree c b ((makeDirs ok [] (a :: ns)).run t).2 u := by
  have hagree := makeDir_other (ok [a]) h hb (List.nil_append [a])
  unfold makeDirs
  rw [run_cond, List.nil_append]
  split
  · exact (keeps_makeDirs ok ns).other b hb _ u hagree
  · exact hagree

theorem keeps_createDirectories {ok : List α → Bool} (hok : ok [] = c) (ns : List α) :
    Keeps c a (createDirectories ok (a :: ns)) := by
  subst hok
  constructor
  · intro t u h
    obtain ⟨hsame, hagree, hroot⟩ := makeRoot_own h
    unfold createDirectories
    rw [run_cond, run_cond, ← hsame]
    split
    · exact makeDirs_own ok ns hagree hroot
    · exact ⟨rfl, hagree⟩
  · intro b hb t u h
    have hagree := makeRoot_other h
    unfold createDirectories
    rw [run_cond]
    split
    · exact makeDirs_other ok ns hagree hb
    · exact hagree

end Calls

/-! ## The calls spare the other files -/

/-- `f` leaves a file at `q` as it is. -/
def Spares (q : List α) (f : StateM (FileTree α) β) : Prop :=
  ∀ t bytes, t.node q = some (.file bytes) → (f.run t).2.node q = some (.file bytes)

section Spares

variable {t t' : FileTree α} {p q : List α} {n : α} {v : Option FileNode}

omit [DecidableEq α] in
theorem Spares.pure (x : β) : Spares q (pure x : StateM (FileTree α) β) := fun _ _ h => h

omit [DecidableEq α] in
theorem Spares.bind {f : StateM (FileTree α) β} {g : β → StateM (FileTree α) γ}
    (hf : Spares q f) (hg : ∀ x, Spares q (g x)) : Spares q (f >>= g) :=
  fun t bytes h => hg _ _ bytes (hf t bytes h)

omit [DecidableEq α] in
theorem Spares.cond {f : StateM (FileTree α) Bool} {g g' : StateM (FileTree α) β}
    (hf : Spares q f) (hg : Spares q g) (hg' : Spares q g') :
    Spares q (do if ← f then g else g') :=
  hf.bind fun x => by cases x <;> assumption

omit [DecidableEq α] in
theorem spares_status (p : List α) : Spares q (status p) := fun _ _ h => h

omit [DecidableEq α] in
theorem spares_list (p : List α) : Spares q (list p) := fun _ _ h => h

theorem IsSet.spares (h : IsSet t p n v t') (hq : p ++ [n] ≠ q) : t'.node q = t.node q := by
  rw [h.node, Function.update_of_ne hq.symm]

/-- `mkdir` makes an entry only where there is none. -/
theorem spares_makeDir (ok : Bool) (p : List α) (n : α) : Spares q (makeDir ok p n) := by
  intro t bytes h
  rw [makeDir_run]
  split
  · exact h
  · exact h
  · rename_i hnone
    have hq : p ++ [n] ≠ q := by
      rintro rfl
      rw [hnone] at h
      cases h
    split
    · exact (IsSet.spares ⟨rfl, rfl⟩ hq).trans h
    · exact h

theorem spares_makeDirs (ok : List α → Bool) (p ns : List α) : Spares q (makeDirs ok p ns) := by
  induction ns generalizing p with
  | nil => exact Spares.pure true
  | cons n ns ih => exact (spares_makeDir _ p n).cond (ih _) (Spares.pure false)

theorem spares_makeRoot (ok : Bool) : Spares q (makeRoot ok : StateM (FileTree α) Bool) := by
  intro t bytes h
  rw [makeRoot_run]
  split
  · rename_i hnone
    have hq : q ≠ [] := by
      rintro rfl
      rw [hnone.1] at h
      cases h
    obtain ⟨x, r, rfl⟩ := List.exists_cons_of_ne_nil hq
    exact (setRoot_below hnone.1 r).trans h
  · exact h

theorem spares_createDirectories (ok : List α → Bool) (p : List α) :
    Spares q (createDirectories ok p) :=
  (spares_makeRoot _).cond (spares_makeDirs ok [] p) (Spares.pure false)

theorem spares_putFile (bytes : List UInt8) (hq : p ++ [n] ≠ q) :
    Spares q (putFile p n bytes) := by
  intro t old h
  rw [putFile_run]
  split
  · exact (IsSet.spares ⟨rfl, rfl⟩ hq).trans h
  · exact h

theorem spares_removeEntry (hq : p ++ [n] ≠ q) : Spares q (removeEntry p n) := by
  intro t old h
  rw [removeEntry_run]
  split
  · exact (IsSet.spares ⟨rfl, rfl⟩ hq).trans h
  · exact h

theorem spares_renameFile {m : α} (hn : p ++ [n] ≠ q) (hm : p ++ [m] ≠ q) :
    Spares q (renameFile p n m) := by
  refine (spares_status (p ++ [n])).bind ?_
  rintro (_ | _ | bytes)
  · exact Spares.pure false
  · exact Spares.pure false
  · exact (spares_putFile bytes hm).cond (spares_removeEntry hn) (Spares.pure false)

end Spares

/-! ## What holds behind a call -/

/-- From a tree with `P`, `f` leads to a result and a tree with `Q`. -/
def Leads (P : FileTree α → Prop) (f : StateM (FileTree α) β) (Q : β → FileTree α → Prop) :
    Prop :=
  ∀ t, P t → Q (f.run t).1 (f.run t).2

section Leads

variable {P : FileTree α → Prop} {t : FileTree α} {p : List α} {n m : α} {bytes : List UInt8}

omit [DecidableEq α] in
theorem Leads.pure {Q : β → FileTree α → Prop} {x : β} (h : ∀ t, P t → Q x t) :
    Leads P (pure x) Q := h

omit [DecidableEq α] in
theorem Leads.bind {f : StateM (FileTree α) β} {g : β → StateM (FileTree α) γ}
    {Q : β → FileTree α → Prop} {R : γ → FileTree α → Prop} (hf : Leads P f Q)
    (hg : ∀ x, Leads (Q x) (g x) R) : Leads P (f >>= g) R :=
  fun t h => hg _ _ (hf t h)

omit [DecidableEq α] in
theorem Leads.cond {f : StateM (FileTree α) Bool} {g g' : StateM (FileTree α) β}
    {Q : Bool → FileTree α → Prop} {R : β → FileTree α → Prop} (hf : Leads P f Q)
    (hg : Leads (Q true) g R) (hg' : Leads (Q false) g' R) :
    Leads P (do if ← f then g else g') R :=
  hf.bind fun x => by cases x <;> assumption

theorem putFile_leads (p : List α) (n : α) (bytes : List UInt8) :
    Leads P (putFile p n bytes) fun ok t => ok = true → t.node (p ++ [n]) = some (.file bytes) := by
  intro t _ hok
  rw [putFile_run] at hok ⊢
  split at hok
  · rename_i h
    rw [dif_pos h]
    exact Function.update_self ..
  · cases hok

/-- A file that is renamed has the bytes it had; one that is not renamed is where it was. -/
theorem renameFile_leads (hnm : n ≠ m) :
    Leads (fun t => t.node (p ++ [n]) = some (.file bytes)) (renameFile p n m) fun ok t =>
      t.node (p ++ [if ok then m else n]) = some (.file bytes) := by
  intro t ht
  have hrun : (renameFile p n m).run t =
      (do if ← putFile p m bytes then removeEntry p n else pure false).run t := by
    unfold renameFile
    change (match t.node (p ++ [n]) with
      | some (.file bytes) => do if ← putFile p m bytes then removeEntry p n else pure false
      | _ => pure false).run t = _
    rw [ht]
  have hmn : p ++ [m] ≠ p ++ [n] := by simpa using hnm.symm
  have hput := putFile_leads (P := fun _ => True) p m bytes t trivial
  have hstays := spares_putFile bytes hmn t bytes ht
  rw [hrun, run_cond]
  split
  · rename_i hok
    rw [removeEntry_run]
    split
    · exact (IsSet.spares ⟨rfl, rfl⟩ hmn.symm).trans (hput hok)
    · exact hstays
  · exact hstays

end Leads

end FileTree

end TruellmEngine.Lib
