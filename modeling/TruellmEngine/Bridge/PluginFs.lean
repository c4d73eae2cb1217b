/-
  `plugin_fs_write` with any number of writers at once, on a disk where every step may fail.
  A writer makes the directory, opens the temporary file next to its target, writes and
  flushes it, and renames it; if that fails it removes the target and renames once more, and
  at last removes the temporary file. A move carries what the operating system makes of the
  step; a write or flush that is cut short leaves the bytes before the cut.

  `expected` is what the files should hold: the bytes of the write that last returned ok, or
  what was there at the start. `Atomic` compares the disk with it, but for the temporary file
  of a writer at work. `writes_atomic` proves it for the runs whose steps are `Clean`: among
  others, no target that is there is removed to rename once more, since a read before the
  second rename finds nothing. `sibling_key_lost` is a run that is not.
-/
import TruellmEngine.Bridge.PluginPath
import TruellmEngine.Bridge.ToolRegistry
import TruellmEngine.Lib.Disk
import TruellmEngine.Lib.Run

namespace TruellmEngine.Bridge

open Lib

/-- `path += text` -/
def concatPath (p : FsPath) (text : List Char) : FsPath :=
  match p.names.getLast? with
  | some name => { p with names := p.names.dropLast ++ [name ++ text] }
  | none => { p with names := [text] }

/-- The temporary name of a target. -/
def tmpOf (target : FsPath) : FsPath := concatPath target ".tmp".toList

inductive WriteAt where
  | mkdir
  | opening
  | writing
  | flushing
  | renaming
  | removing
  | renamingAgain
  | cleaning
  | returned (ec : PluginError)
deriving DecidableEq

/-- The stages with a temporary file. -/
def WriteAt.hasTmp : WriteAt → Bool
  | .mkdir | .opening | .returned _ => false
  | _ => true

/-- A call of `plugin_fs_write`. `tmpInode` is the temporary file it is at work on. -/
structure FsWriter where
  target : FsPath
  bytes : List UInt8
  stage : WriteAt := .mkdir
  tmpInode : Option (Inode FsPath) := none

def FsWriter.finish (w : FsWriter) (ec : PluginError) : FsWriter :=
  { w with stage := .returned ec, tmpInode := none }

/-- The temporary file of a writer at work. -/
structure TmpFile where
  target : FsPath
  inode : Inode FsPath

def FsWriter.tmpFile (w : FsWriter) : Option TmpFile :=
  w.tmpInode.map fun ino => ⟨w.target, ino⟩

structure PluginFs where
  disk : Disk FsPath
  writers : List FsWriter := []
  /-- The writes that returned ok, in the order of their renames. -/
  completed : List (FsPath × List UInt8) := []

/-- The checks at the head of the call. -/
def startWrite (pl : Platform) (root id rel : List Char) (bytes : List UInt8) :
    Except PluginError FsWriter :=
  if root.isEmpty then .error .permission
  else
    match resolvePluginPath pl root id rel with
    | none => .error .invalid
    | some target => .ok { target := target, bytes := bytes }

namespace PluginFs

inductive Move where
  | call (id rel : List Char) (bytes : List UInt8)
  | mkdir (i : Nat) (ok : Bool)
  | openTmp (i : Nat) (ok : Bool)
  /-- `out.write`, of which `count` bytes reach the file. -/
  | write (i count : Nat) (ok : Bool)
  /-- `out.flush` and the end of the stream; nobody looks at their result. -/
  | flush (i count : Nat)
  | rename (i : Nat) (ok : Bool)
  | removeTarget (i : Nat) (ok : Bool)
  | removeTmp (i : Nat) (ok : Bool)

def setWriter (s : PluginFs) (i : Nat) (w : FsWriter) : PluginFs :=
  { s with writers := s.writers.set i w }

/-- The temporary file takes the name of the target. -/
def commit (s : PluginFs) (i : Nat) (w : FsWriter) : PluginFs where
  disk := s.disk.rename (tmpOf w.target) w.target
  writers := s.writers.set i (w.finish .ok)
  completed := s.completed ++ [(w.target, w.bytes)]

/-- A rename that may succeed does so if there is a file to rename. -/
def renames (s : PluginFs) (w : FsWriter) (ok : Bool) : Bool :=
  ok && (s.disk.names (tmpOf w.target)).isSome

def moveWriter (s : PluginFs) (i : Nat) (w : FsWriter) : Move → Option PluginFs
  | .mkdir _ ok =>
    if w.stage = .mkdir then
      some (s.setWriter i (if ok then { w with stage := .opening } else w.finish .internal))
    else none
  | .openTmp _ ok =>
    if w.stage = .opening then
      if ok then
        let opened := s.disk.openTruncated (tmpOf w.target)
        some { s.setWriter i { w with
          stage := if w.bytes.isEmpty then .flushing else .writing
          tmpInode := some opened.1 } with disk := opened.2 }
      else some (s.setWriter i (w.finish .internal))
    else none
  | .write _ count ok =>
    w.tmpInode.bind fun ino =>
      if w.stage = .writing then
        let disk := s.disk.overwrite ino (w.bytes.take count)
        some { s.setWriter i (if ok then { w with stage := .flushing } else
          w.finish .internal) with disk := disk }
      else none
  | .flush _ count =>
    w.tmpInode.bind fun ino =>
      if w.stage = .flushing then
        some { s.setWriter i { w with stage := .renaming } with
          disk := s.disk.overwrite ino (w.bytes.take count) }
      else none
  | .rename _ ok =>
    match w.stage with
    | .renaming =>
      some (if s.renames w ok then s.commit i w else s.setWriter i { w with stage := .removing })
    | .renamingAgain =>
      some (if s.renames w ok then s.commit i w else s.setWriter i { w with stage := .cleaning })
    | _ => none
  | .removeTarget _ ok =>
    if w.stage = .removing then
      some (if ok then
        { s.setWriter i { w with stage := .renamingAgain } with
          disk := s.disk.remove w.target }
      else s.setWriter i { w with stage := .renamingAgain })
    else none
  | .removeTmp _ ok =>
    if w.stage = .cleaning then
      some { s.setWriter i (w.finish .internal) with
        disk := if ok then s.disk.remove (tmpOf w.target) else s.disk }
    else none
  | .call .. => none

/-- The writer that a move is about. -/
def Move.writer : Move → Nat
  | .call .. => 0
  | .mkdir i _ | .openTmp i _ | .write i _ _ | .flush i _ | .rename i _ | .removeTarget i _
  | .removeTmp i _ => i

def step (pl : Platform) (root : List Char) (s : PluginFs) : Move → Option PluginFs
  | .call id rel bytes =>
    match startWrite pl root id rel bytes with
    | .error _ => some s
    | .ok w => some { s with writers := s.writers ++ [w] }
  | m => s.writers[m.writer]?.bind fun w => s.moveWriter m.writer w m

/-- `plugin_fs_read` of a file. -/
def read (s : PluginFs) (p : FsPath) : Option (List UInt8) := s.disk.contents p

/-- What the files should hold after these writes. -/
def expected (files : FsPath → Option (List UInt8)) (completed : List (FsPath × List UInt8)) :
    FsPath → Option (List UInt8) :=
  completed.foldl (fun f write p => if p = write.1 then some write.2 else f p) files

def tmpFile (s : PluginFs) (i : Nat) : Option TmpFile := s.writers[i]?.bind FsWriter.tmpFile

/-- Some writer has returned ok for this write. -/
def ReturnedOk (s : PluginFs) (write : FsPath × List UInt8) : Prop :=
  ∃ (i : Nat) (w : FsWriter), s.writers[i]? = some w ∧ w.stage = .returned .ok ∧
    (w.target, w.bytes) = write

/-- The completed writes are those that returned ok. A read finds what is expected of them,
    except at the temporary name of a writer at work, where nothing is expected. -/
structure Atomic (files : FsPath → Option (List UInt8)) (s : PluginFs) : Prop where
  completed : ∀ write, write ∈ s.completed ↔ s.ReturnedOk write
  reads : ∀ p, s.read p = expected files s.completed p ∨
    ∃ i f, s.tmpFile i = some f ∧ p = tmpOf f.target ∧ expected files s.completed p = none

/-- No writer at work has its temporary file at this name. -/
def NoTmpAt (s : PluginFs) (p : FsPath) : Prop :=
  ∀ w ∈ s.writers, ∀ f ∈ w.tmpFile, tmpOf f.target ≠ p

/-- The step of writer `w` meets no failure that `plugin_fs_write` does not undo, and no file
    at the names it uses but its own. -/
def CleanWriter (s : PluginFs) (w : FsWriter) : Move → Prop
  | .openTmp _ ok => ok = true → s.disk.names (tmpOf w.target) = none
  | .write _ _ ok => ok = true
  | .rename _ ok => s.renames w ok = true →
      s.disk.contents (tmpOf w.target) = some w.bytes ∧ s.NoTmpAt w.target
  | .removeTarget _ ok => ok = true → s.disk.names w.target = none
  | .removeTmp _ ok => ok = true
  | _ => True

def Clean (s : PluginFs) : Move → Prop
  | .call .. => True
  | m => ∀ w ∈ s.writers[m.writer]?, s.CleanWriter w m

instance (s : PluginFs) (p : FsPath) : Decidable (s.NoTmpAt p) :=
  inferInstanceAs (Decidable (∀ w ∈ s.writers, ∀ f ∈ w.tmpFile, _))

instance (s : PluginFs) (w : FsWriter) : DecidablePred (s.CleanWriter w)
  | .openTmp .. => inferInstanceAs (Decidable (_ → _))
  | .write .. => inferInstanceAs (Decidable (_ = _))
  | .rename .. => inferInstanceAs (Decidable (_ → _ ∧ _))
  | .removeTarget .. => inferInstanceAs (Decidable (_ → _))
  | .removeTmp .. => inferInstanceAs (Decidable (_ = _))
  | .call .. | .mkdir .. | .flush .. => .isTrue trivial

instance (s : PluginFs) : DecidablePred s.Clean
  | .call .. => .isTrue trivial
  | .mkdir i ok => inferInstanceAs (Decidable (∀ w ∈ s.writers[i]?, s.CleanWriter w (.mkdir i ok)))
  | .openTmp i ok =>
    inferInstanceAs (Decidable (∀ w ∈ s.writers[i]?, s.CleanWriter w (.openTmp i ok)))
  | .write i count ok =>
    inferInstanceAs (Decidable (∀ w ∈ s.writers[i]?, s.CleanWriter w (.write i count ok)))
  | .flush i count =>
    inferInstanceAs (Decidable (∀ w ∈ s.writers[i]?, s.CleanWriter w (.flush i count)))
  | .rename i ok =>
    inferInstanceAs (Decidable (∀ w ∈ s.writers[i]?, s.CleanWriter w (.rename i ok)))
  | .removeTarget i ok =>
    inferInstanceAs (Decidable (∀ w ∈ s.writers[i]?, s.CleanWriter w (.removeTarget i ok)))
  | .removeTmp i ok =>
    inferInstanceAs (Decidable (∀ w ∈ s.writers[i]?, s.CleanWriter w (.removeTmp i ok)))

/-! ## The temporary files and the disk -/

theorem concatPath_ne {p : FsPath} {text : List Char} (htext : text ≠ []) :
    concatPath p text ≠ p := by
  unfold concatPath
  split
  · rename_i name hlast
    intro heq
    have hlast' := congrArg (fun q : FsPath => q.names.getLast?) heq
    dsimp only at hlast'
    rw [List.getLast?_concat, hlast, Option.some.injEq] at hlast'
    exact htext (List.append_right_eq_self.mp hlast')
  · rename_i hlast
    intro heq
    have hnames := congrArg FsPath.names heq
    rw [List.getLast?_eq_none_iff.mp hlast] at hnames
    exact absurd hnames (List.cons_ne_nil _ _)

theorem tmpOf_ne (target : FsPath) : tmpOf target ≠ target := concatPath_ne (by decide)

/-- The writers' temporary files are where they were opened, one for each, at names where
    nothing is expected; all other files are as expected. -/
structure Coherent (tmps : Nat → Option TmpFile) (disk : Disk FsPath)
    (exp : FsPath → Option (List UInt8)) : Prop where
  linked : ∀ i f, tmps i = some f → disk.names (tmpOf f.target) = some f.inode
  own : ∀ i j f g, tmps i = some f → tmps j = some g → f.inode = g.inode → i = j
  free : ∀ i f, tmps i = some f → exp (tmpOf f.target) = none
  exact : ∀ p, (∀ i f, tmps i = some f → tmpOf f.target ≠ p) → disk.contents p = exp p

section Coherent

variable {tmps : Nat → Option TmpFile} {disk : Disk FsPath}
  {exp : FsPath → Option (List UInt8)} {i : Nat} {f : TmpFile}

/-- What a change of writer `i` leaves to the others. -/
def setTmp (tmps : Nat → Option TmpFile) (i : Nat) (f : Option TmpFile) : Nat → Option TmpFile :=
  fun j => if j = i then f else tmps j

theorem setTmp_self (tmps : Nat → Option TmpFile) (i : Nat) (f : Option TmpFile) :
    setTmp tmps i f i = f := if_pos rfl

theorem setTmp_ne {j : Nat} (hj : j ≠ i) (f : Option TmpFile) : setTmp tmps i f j = tmps j :=
  if_neg hj

/-- A temporary file after the change is the new one or another writer's. -/
theorem of_setTmp {j : Nat} {g : TmpFile} {new : Option TmpFile}
    (h : setTmp tmps i new j = some g) : j = i ∧ new = some g ∨ j ≠ i ∧ tmps j = some g := by
  by_cases hj : j = i
  · left
    rw [hj, setTmp_self] at h
    exact ⟨hj, h⟩
  · right
    rw [setTmp_ne hj] at h
    exact ⟨hj, h⟩

theorem of_setTmp_none {j : Nat} {g : TmpFile} (h : setTmp tmps i none j = some g) :
    j ≠ i ∧ tmps j = some g := by
  rcases of_setTmp h with ⟨-, hg⟩ | hg
  · cases hg
  · exact hg

/-- Two writers have different temporary names, and so different targets. -/
theorem Coherent.tmpOf_ne (h : Coherent tmps disk exp) (hi : tmps i = some f) {j : Nat}
    {g : TmpFile} (hj : tmps j = some g) (hne : j ≠ i) : tmpOf g.target ≠ tmpOf f.target := by
  intro heq
  have hname := h.linked j g hj
  rw [heq, h.linked i f hi] at hname
  exact hne (h.own j i g f hj hi (Option.some.inj hname).symm)

/-- What the change leaves to the others touches no name that writer `i` does not touch. -/
theorem Coherent.exact_of_setTmp (h : Coherent tmps disk exp) (hi : tmps i = some f) {p : FsPath}
    {new : Option TmpFile} (hself : tmpOf f.target ≠ p)
    (hp : ∀ j g, setTmp tmps i new j = some g → tmpOf g.target ≠ p) :
    disk.contents p = exp p := by
  refine h.exact p fun j g hj => ?_
  by_cases hji : j = i
  · rw [hji, hi] at hj
    cases hj
    exact hself
  · exact hp j g ((setTmp_ne hji _).trans hj)

theorem Coherent.overwrite (h : Coherent tmps disk exp) (hi : tmps i = some f)
    (bytes : List UInt8) : Coherent tmps (disk.overwrite f.inode bytes) exp := by
  refine ⟨h.linked, h.own, h.free, ?_⟩
  intro p hp
  rw [Disk.overwrite_contents (h.linked i f hi) (hp i f hi).symm]
  exact h.exact p hp

theorem Coherent.openTmp (h : Coherent tmps disk exp) (hi : tmps i = none) {target : FsPath}
    (hname : disk.names (tmpOf target) = none) :
    Coherent (setTmp tmps i (some ⟨target, .created disk.next⟩))
      (disk.create (tmpOf target)) exp := by
  have hne : ∀ j g, tmps j = some g → tmpOf g.target ≠ tmpOf target := by
    intro j g hj heq
    have hlinked := h.linked j g hj
    rw [heq, hname] at hlinked
    cases hlinked
  have hfree : exp (tmpOf target) = none := by
    rw [← h.exact (tmpOf target) hne]
    exact Disk.contents_eq_none.mpr hname
  have hnew : ∀ j g, tmps j = some g → g.inode ≠ .created disk.next := by
    intro j g hj heq
    have hlinked := h.linked j g hj
    rw [heq] at hlinked
    exact absurd (disk.bound _ _ hlinked) (Nat.lt_irrefl _)
  refine ⟨?_, ?_, ?_, ?_⟩
  · intro j g hj
    rcases of_setTmp hj with ⟨-, hg⟩ | ⟨-, hg⟩
    · cases hg
      exact Disk.create_names_self
    · rw [Disk.create_names (hne j g hg)]
      exact h.linked j g hg
  · intro j k g g' hj hk heq
    rcases of_setTmp hj with ⟨hji, hg⟩ | ⟨-, hg⟩
    · rcases of_setTmp hk with ⟨hki, -⟩ | ⟨-, hg'⟩
      · rw [hji, hki]
      · cases hg
        exact absurd heq.symm (hnew k g' hg')
    · rcases of_setTmp hk with ⟨-, hg'⟩ | ⟨-, hg'⟩
      · cases hg'
        exact absurd heq (hnew j g hg)
      · exact h.own j k g g' hg hg' heq
  · intro j g hj
    rcases of_setTmp hj with ⟨-, hg⟩ | ⟨-, hg⟩
    · cases hg
      exact hfree
    · exact h.free j g hg
  · intro p hp
    have hptmp : p ≠ tmpOf target := (hp i _ (setTmp_self tmps i _)).symm
    rw [Disk.create_contents hptmp]
    refine h.exact p fun j g hj => hp j g ?_
    rw [setTmp_ne]
    · exact hj
    · rintro rfl
      rw [hi] at hj
      cases hj

theorem Coherent.commit (h : Coherent tmps disk exp) (hi : tmps i = some f) {bytes : List UInt8}
    (hbytes : disk.contents (tmpOf f.target) = some bytes)
    (hother : ∀ j g, tmps j = some g → tmpOf g.target ≠ f.target) :
    Coherent (setTmp tmps i none) (disk.rename (tmpOf f.target) f.target)
      (fun p => if p = f.target then some bytes else exp p) := by
  refine ⟨?_, ?_, ?_, ?_⟩
  · intro j g hj
    obtain ⟨hne, hg⟩ := of_setTmp_none hj
    rw [Disk.rename_names (h.tmpOf_ne hi hg hne) (hother j g hg)]
    exact h.linked j g hg
  · intro j k g g' hj hk
    exact h.own j k g g' (of_setTmp_none hj).2 (of_setTmp_none hk).2
  · intro j g hj
    obtain ⟨-, hg⟩ := of_setTmp_none hj
    rw [if_neg (hother j g hg)]
    exact h.free j g hg
  · intro p hp
    by_cases htarget : p = f.target
    · rw [if_pos htarget, htarget, Disk.rename_contents_target]
      exact hbytes
    · rw [if_neg htarget]
      by_cases hsource : p = tmpOf f.target
      · rw [hsource, h.free i f hi]
        exact Disk.contents_eq_none.mpr (Disk.rename_names_source (PluginFs.tmpOf_ne _))
      · rw [Disk.rename_contents hsource htarget]
        exact h.exact_of_setTmp hi (fun heq => hsource heq.symm) hp

/-- Where no target is, its removal changes nothing. -/
theorem Coherent.removeTarget (h : Coherent tmps disk exp) {target : FsPath}
    (hnone : disk.names target = none) : Coherent tmps (disk.remove target) exp := by
  refine ⟨?_, h.own, h.free, ?_⟩
  · intro j g hj
    rw [Disk.remove_names]
    · exact h.linked j g hj
    · intro heq
      have hlinked := h.linked j g hj
      rw [heq, hnone] at hlinked
      cases hlinked
  · intro p hp
    by_cases htarget : p = target
    · rw [← h.exact p hp, htarget, Disk.contents_eq_none.mpr hnone]
      exact Disk.contents_eq_none.mpr Disk.remove_names_self
    · rw [Disk.remove_contents htarget]
      exact h.exact p hp

theorem Coherent.removeTmp (h : Coherent tmps disk exp) (hi : tmps i = some f) :
    Coherent (setTmp tmps i none) (disk.remove (tmpOf f.target)) exp := by
  refine ⟨?_, ?_, ?_, ?_⟩
  · intro j g hj
    obtain ⟨hne, hg⟩ := of_setTmp_none hj
    rw [Disk.remove_names (h.tmpOf_ne hi hg hne)]
    exact h.linked j g hg
  · intro j k g g' hj hk
    exact h.own j k g g' (of_setTmp_none hj).2 (of_setTmp_none hk).2
  · intro j g hj
    exact h.free j g (of_setTmp_none hj).2
  · intro p hp
    by_cases hsource : p = tmpOf f.target
    · rw [hsource, h.free i f hi]
      exact Disk.contents_eq_none.mpr Disk.remove_names_self
    · rw [Disk.remove_contents hsource]
      exact h.exact_of_setTmp hi (fun heq => hsource heq.symm) hp

end Coherent

/-! ## The writers -/

/-- A writer has a temporary file where its stage needs one. -/
def WriterOk (w : FsWriter) : Prop := w.tmpInode.isSome = w.stage.hasTmp

structure Inv (files : FsPath → Option (List UInt8)) (s : PluginFs) : Prop where
  coherent : Coherent s.tmpFile s.disk (expected files s.completed)
  writers : ∀ w ∈ s.writers, WriterOk w
  completed : ∀ write, write ∈ s.completed ↔ s.ReturnedOk write

section Steps

variable {files : FsPath → Option (List UInt8)} {s t : PluginFs} {i : Nat} {w v : FsWriter}

theorem tmpFile_of (hi : s.writers[i]? = some w) : s.tmpFile i = w.tmpFile := by
  unfold tmpFile
  rw [hi]
  rfl

/-- What holds of every writer's temporary file. -/
theorem tmpFile_of_forall {P : TmpFile → Prop} (h : ∀ w ∈ s.writers, ∀ f ∈ w.tmpFile, P f)
    (j : Nat) (f : TmpFile) (hf : s.tmpFile j = some f) : P f := by
  obtain ⟨w, hw, hwf⟩ := Option.bind_eq_some_iff.mp hf
  exact h w (List.mem_of_getElem? hw) f hwf

theorem tmpFile_set (hi : s.writers[i]? = some w) (v : FsWriter) (disk : Disk FsPath)
    (completed : List (FsPath × List UInt8)) :
    (PluginFs.mk disk (s.writers.set i v) completed).tmpFile =
      setTmp s.tmpFile i v.tmpFile := by
  funext j
  have hlt : i < s.writers.length := (List.getElem?_eq_some_iff.mp hi).1
  by_cases hj : j = i
  · rw [hj, setTmp_self]
    exact tmpFile_of (List.getElem?_set_self hlt)
  · rw [setTmp_ne hj]
    show (s.writers.set i v)[j]?.bind FsWriter.tmpFile = _
    rw [List.getElem?_set_ne (fun h => hj h.symm)]
    rfl

/-- A writer that has not returned goes on, or returns. -/
theorem returnedOk_set (hi : s.writers[i]? = some w) (hbefore : w.stage ≠ .returned .ok)
    (v : FsWriter) (disk : Disk FsPath) (completed : List (FsPath × List UInt8))
    (write : FsPath × List UInt8) :
    (PluginFs.mk disk (s.writers.set i v) completed).ReturnedOk write ↔
      s.ReturnedOk write ∨ v.stage = .returned .ok ∧ (v.target, v.bytes) = write := by
  have hlt : i < s.writers.length := (List.getElem?_eq_some_iff.mp hi).1
  constructor
  · rintro ⟨j, x, hj, hreturned⟩
    have hj : (s.writers.set i v)[j]? = some x := hj
    by_cases hij : i = j
    · rw [← hij, List.getElem?_set_self hlt] at hj
      cases hj
      exact Or.inr hreturned
    · rw [List.getElem?_set_ne hij] at hj
      exact Or.inl ⟨j, x, hj, hreturned⟩
  · rintro (⟨j, x, hj, hreturned⟩ | hreturned)
    · have hij : i ≠ j := by
        rintro rfl
        rw [hi] at hj
        cases hj
        exact hbefore hreturned.1
      exact ⟨j, x, (List.getElem?_set_ne hij).trans hj, hreturned⟩
    · exact ⟨i, v, List.getElem?_set_self hlt, hreturned⟩

/-- Writer `i` becomes `v`; the rest is as the disk's lemma says. -/
theorem Inv.of_set (h : Inv files s) (hi : s.writers[i]? = some w) (hv : WriterOk v)
    (hbefore : w.stage ≠ .returned .ok) {disk : Disk FsPath}
    {completed : List (FsPath × List UInt8)}
    (hcompleted : ∀ write, write ∈ completed ↔
      write ∈ s.completed ∨ v.stage = .returned .ok ∧ (v.target, v.bytes) = write)
    (hcoherent : Coherent (setTmp s.tmpFile i v.tmpFile) disk (expected files completed)) :
    Inv files { disk := disk, writers := s.writers.set i v, completed := completed } := by
  refine ⟨by rw [tmpFile_set hi]; exact hcoherent, ?_, ?_⟩
  · intro x hx
    rcases List.mem_or_eq_of_mem_set hx with hx | rfl
    · exact h.writers x hx
    · exact hv
  · intro write
    rw [returnedOk_set hi hbefore, ← h.completed]
    exact hcompleted write

/-- Nothing is completed by a step that does not return ok. -/
theorem completed_same (hafter : v.stage ≠ .returned .ok) (write : FsPath × List UInt8) :
    write ∈ s.completed ↔
      write ∈ s.completed ∨ v.stage = .returned .ok ∧ (v.target, v.bytes) = write :=
  ⟨Or.inl, fun h => h.resolve_right fun hw => hafter hw.1⟩

theorem setTmp_same {tmps : Nat → Option TmpFile} {f : Option TmpFile} (h : tmps i = f) :
    setTmp tmps i f = tmps := by
  funext j
  by_cases hj : j = i
  · rw [hj, setTmp_self, h]
  · rw [setTmp_ne hj]

/-- Writer `i` goes on with the temporary file it has, or without one. -/
theorem Inv.goesOn (h : Inv files s) (hi : s.writers[i]? = some w) (hv : WriterOk v)
    (hbefore : w.stage ≠ .returned .ok) (hafter : v.stage ≠ .returned .ok)
    (hsame : v.tmpFile = w.tmpFile) : Inv files (s.setWriter i v) := by
  refine h.of_set hi hv hbefore (completed_same hafter) ?_
  rw [setTmp_same ((tmpFile_of hi).trans hsame.symm)]
  exact h.coherent

theorem tmpFile_eq_none (h : w.tmpInode.isSome = false) : w.tmpFile = none := by
  have hnone : w.tmpInode = none := Option.not_isSome_iff_eq_none.mp (by simp [h])
  rw [FsWriter.tmpFile, hnone]
  rfl

theorem finish_ok (w : FsWriter) (ec : PluginError) : WriterOk (w.finish ec) := rfl

theorem finish_tmpFile (w : FsWriter) (ec : PluginError) :
    (w.finish ec).tmpFile = none := rfl

/-- A writer in a stage with a temporary file has one. -/
theorem WriterOk.exists_tmp (hw : WriterOk w) (hstage : w.stage.hasTmp = true) :
    ∃ ino, w.tmpInode = some ino ∧ w.tmpFile = some ⟨w.target, ino⟩ := by
  obtain ⟨ino, hino⟩ := Option.isSome_iff_exists.mp (Eq.trans hw hstage)
  exact ⟨ino, hino, by rw [FsWriter.tmpFile, hino]; rfl⟩

theorem Inv.mkdir (h : Inv files s) (hi : s.writers[i]? = some w) {ok : Bool}
    (hstep : s.moveWriter i w (.mkdir i ok) = some t) : Inv files t := by
  have hw : w.tmpInode.isSome = w.stage.hasTmp := h.writers w (List.mem_of_getElem? hi)
  simp only [moveWriter] at hstep
  split at hstep
  · rename_i hstage
    have htmp : w.tmpInode.isSome = false := by rw [hw, hstage]; rfl
    cases hstep
    cases ok with
    | true =>
      exact h.goesOn hi htmp (hstage.trans_ne (by decide)) (fun hs => nomatch hs) rfl
    | false =>
      exact h.goesOn hi (finish_ok w .internal) (hstage.trans_ne (by decide)) (fun hs => nomatch hs)
        (tmpFile_eq_none htmp).symm
  · cases hstep

theorem Inv.openTmp (h : Inv files s) (hi : s.writers[i]? = some w) {ok : Bool}
    (hclean : s.CleanWriter w (.openTmp i ok))
    (hstep : s.moveWriter i w (.openTmp i ok) = some t) : Inv files t := by
  have hw : w.tmpInode.isSome = w.stage.hasTmp := h.writers w (List.mem_of_getElem? hi)
  simp only [moveWriter] at hstep
  split at hstep
  · rename_i hstage
    have htmp : w.tmpInode.isSome = false := by rw [hw, hstage]; rfl
    cases ok with
    | true =>
      have hname : s.disk.names (tmpOf w.target) = none := hclean rfl
      rw [if_pos rfl, Disk.openTruncated_of_free hname] at hstep
      cases hstep
      refine h.of_set (v := { w with
          stage := if w.bytes.isEmpty then .flushing else .writing
          tmpInode := some (.created s.disk.next) }) hi ?_ (hstage.trans_ne (by decide))
        (completed_same ?_) ?_
      · unfold WriterOk
        dsimp only
        split <;> rfl
      · dsimp only
        split <;> decide
      · exact h.coherent.openTmp ((tmpFile_of hi).trans (tmpFile_eq_none htmp)) hname
    | false =>
      cases hstep
      exact h.goesOn hi (finish_ok w .internal) (hstage.trans_ne (by decide)) (fun hs => nomatch hs)
        (tmpFile_eq_none htmp).symm
  · cases hstep

/-- A write into the open file, behind which the writer goes on. -/
theorem Inv.writes (h : Inv files s) (hi : s.writers[i]? = some w) {ino : Inode FsPath}
    (hino : w.tmpInode = some ino) (bytes : List UInt8) {stage : WriteAt}
    (hbefore : w.stage ≠ .returned .ok) (hstage : stage.hasTmp = true) :
    Inv files { s.setWriter i { w with stage := stage } with
      disk := s.disk.overwrite ino bytes } := by
  have hfile : s.tmpFile i = some ⟨w.target, ino⟩ := by
    rw [tmpFile_of hi, FsWriter.tmpFile, hino]
    rfl
  refine h.of_set (v := { w with stage := stage }) hi ?_ hbefore (completed_same ?_) ?_
  · unfold WriterOk
    dsimp only
    rw [hino, hstage]
    rfl
  · rintro rfl
    cases hstage
  · have hsame : s.tmpFile i = FsWriter.tmpFile { w with stage := stage } :=
      (tmpFile_of hi).trans rfl
    rw [setTmp_same hsame]
    exact h.coherent.overwrite hfile bytes

theorem Inv.write (h : Inv files s) (hi : s.writers[i]? = some w) {count : Nat} {ok : Bool}
    (hclean : s.CleanWriter w (.write i count ok))
    (hstep : s.moveWriter i w (.write i count ok) = some t) : Inv files t := by
  obtain rfl : ok = true := hclean
  obtain ⟨ino, hino, hcase⟩ := Option.bind_eq_some_iff.mp hstep
  split at hcase
  · rename_i hstage
    cases hcase
    exact h.writes hi hino _ (hstage.trans_ne (by decide)) rfl
  · cases hcase

theorem Inv.flush (h : Inv files s) (hi : s.writers[i]? = some w) {count : Nat}
    (hstep : s.moveWriter i w (.flush i count) = some t) : Inv files t := by
  obtain ⟨ino, hino, hcase⟩ := Option.bind_eq_some_iff.mp hstep
  split at hcase
  · rename_i hstage
    cases hcase
    exact h.writes hi hino _ (hstage.trans_ne (by decide)) rfl
  · cases hcase

theorem expected_append (files : FsPath → Option (List UInt8))
    (completed : List (FsPath × List UInt8)) (target : FsPath) (bytes : List UInt8) :
    expected files (completed ++ [(target, bytes)]) =
      fun p => if p = target then some bytes else expected files completed p := by
  unfold expected
  rw [List.foldl_append]
  rfl

theorem Inv.commit (h : Inv files s) (hi : s.writers[i]? = some w)
    (hstage : w.stage.hasTmp = true)
    (hbytes : s.disk.contents (tmpOf w.target) = some w.bytes)
    (hother : s.NoTmpAt w.target) : Inv files (s.commit i w) := by
  obtain ⟨ino, -, hfile⟩ := (h.writers w (List.mem_of_getElem? hi)).exists_tmp hstage
  refine h.of_set hi (finish_ok w .ok) ?_ ?_ ?_
  · intro hreturned
    rw [hreturned] at hstage
    cases hstage
  · intro write
    rw [List.mem_append, List.mem_singleton]
    exact or_congr Iff.rfl ⟨fun h => ⟨rfl, h.symm⟩, fun h => h.2.symm⟩
  · rw [finish_tmpFile, expected_append]
    exact h.coherent.commit ((tmpFile_of hi).trans hfile) hbytes (tmpFile_of_forall hother)

theorem Inv.rename (h : Inv files s) (hi : s.writers[i]? = some w) {ok : Bool}
    (hclean : s.CleanWriter w (.rename i ok))
    (hstep : s.moveWriter i w (.rename i ok) = some t) : Inv files t := by
  have hw : w.tmpInode.isSome = w.stage.hasTmp := h.writers w (List.mem_of_getElem? hi)
  -- both renames do the same, but for what follows a failure
  simp only [moveWriter] at hstep
  split at hstep
  · rename_i hstage
    cases hstep
    split
    · rename_i hrenames
      obtain ⟨hbytes, hother⟩ := hclean hrenames
      exact h.commit hi (by rw [hstage]; rfl) hbytes hother
    · exact h.goesOn hi (hw.trans (by rw [hstage]; rfl)) (hstage.trans_ne (by decide))
        (fun hs => nomatch hs) rfl
  · rename_i hstage
    cases hstep
    split
    · rename_i hrenames
      obtain ⟨hbytes, hother⟩ := hclean hrenames
      exact h.commit hi (by rw [hstage]; rfl) hbytes hother
    · exact h.goesOn hi (hw.trans (by rw [hstage]; rfl)) (hstage.trans_ne (by decide))
        (fun hs => nomatch hs) rfl
  · cases hstep

theorem Inv.removeTarget (h : Inv files s) (hi : s.writers[i]? = some w) {ok : Bool}
    (hclean : s.CleanWriter w (.removeTarget i ok))
    (hstep : s.moveWriter i w (.removeTarget i ok) = some t) : Inv files t := by
  have hw : w.tmpInode.isSome = w.stage.hasTmp := h.writers w (List.mem_of_getElem? hi)
  simp only [moveWriter] at hstep
  split at hstep
  · rename_i hstage
    have htmp : w.tmpInode.isSome = true := by rw [hw, hstage]; rfl
    cases hstep
    split
    · rename_i hok
      refine h.of_set (v := { w with stage := .renamingAgain }) hi htmp
        (hstage.trans_ne (by decide)) (completed_same fun hs => nomatch hs) ?_
      have hsame : s.tmpFile i = FsWriter.tmpFile { w with stage := .renamingAgain } :=
        (tmpFile_of hi).trans rfl
      rw [setTmp_same hsame]
      exact h.coherent.removeTarget (hclean hok)
    · exact h.goesOn hi htmp (hstage.trans_ne (by decide)) (fun hs => nomatch hs) rfl
  · cases hstep

theorem Inv.removeTmp (h : Inv files s) (hi : s.writers[i]? = some w) {ok : Bool}
    (hclean : s.CleanWriter w (.removeTmp i ok))
    (hstep : s.moveWriter i w (.removeTmp i ok) = some t) : Inv files t := by
  obtain rfl : ok = true := hclean
  simp only [moveWriter] at hstep
  split at hstep
  · rename_i hstage
    obtain ⟨ino, -, hfile⟩ :=
      (h.writers w (List.mem_of_getElem? hi)).exists_tmp (by rw [hstage]; rfl)
    cases hstep
    refine h.of_set hi (finish_ok w .internal) (hstage.trans_ne (by decide))
      (completed_same fun hs => nomatch hs) ?_
    rw [finish_tmpFile]
    exact h.coherent.removeTmp ((tmpFile_of hi).trans hfile)
  · cases hstep

/-- A new writer has no temporary file. -/
theorem Inv.call (h : Inv files s) (w : FsWriter) (hw : WriterOk w) (hnone : w.tmpFile = none)
    (hstage : w.stage ≠ .returned .ok) : Inv files { s with writers := s.writers ++ [w] } := by
  have hsame : (PluginFs.mk s.disk (s.writers ++ [w]) s.completed).tmpFile = s.tmpFile := by
    funext j
    show (s.writers ++ [w])[j]?.bind FsWriter.tmpFile = s.writers[j]?.bind FsWriter.tmpFile
    by_cases hlt : j < s.writers.length
    · rw [List.getElem?_append_left hlt]
    · have hle : s.writers.length ≤ j := Nat.le_of_not_lt hlt
      rw [List.getElem?_append_right hle, List.getElem?_eq_none hle]
      cases hget : [w][j - s.writers.length]? with
      | none => rfl
      | some x =>
        rw [List.mem_singleton.mp (List.mem_of_getElem? hget)]
        exact hnone
  refine ⟨by rw [hsame]; exact h.coherent, ?_, ?_⟩
  · intro x hx
    rcases List.mem_append.mp hx with hx | hx
    · exact h.writers x hx
    · rw [List.mem_singleton.mp hx]
      exact hw
  · intro write
    rw [h.completed]
    constructor
    · rintro ⟨j, x, hj, hreturned⟩
      have hlt : j < s.writers.length := (List.getElem?_eq_some_iff.mp hj).1
      exact ⟨j, x, (List.getElem?_append_left hlt).trans hj, hreturned⟩
    · rintro ⟨j, x, hj, hreturned⟩
      have hj : (s.writers ++ [w])[j]? = some x := hj
      by_cases hlt : j < s.writers.length
      · rw [List.getElem?_append_left hlt] at hj
        exact ⟨j, x, hj, hreturned⟩
      · rw [List.getElem?_append_right (Nat.le_of_not_lt hlt)] at hj
        rw [List.mem_singleton.mp (List.mem_of_getElem? hj)] at hreturned
        exact absurd hreturned.1 hstage

theorem Inv.step {pl : Platform} {root : List Char} {m : Move} (h : Inv files s)
    (hclean : s.Clean m) (hstep : s.step pl root m = some t) : Inv files t := by
  cases m with
  | call id rel bytes =>
    simp only [PluginFs.step] at hstep
    split at hstep
    · cases hstep
      exact h
    · rename_i w hstart
      cases hstep
      unfold startWrite at hstart
      split at hstart
      · cases hstart
      · split at hstart
        · cases hstart
        · cases hstart
          exact h.call _ rfl rfl (fun hs => nomatch hs)
  | mkdir i ok =>
    obtain ⟨w, hi, hcase⟩ := Option.bind_eq_some_iff.mp hstep
    exact h.mkdir hi hcase
  | openTmp i ok =>
    obtain ⟨w, hi, hcase⟩ := Option.bind_eq_some_iff.mp hstep
    exact h.openTmp hi (hclean w hi) hcase
  | write i count ok =>
    obtain ⟨w, hi, hcase⟩ := Option.bind_eq_some_iff.mp hstep
    exact h.write hi (hclean w hi) hcase
  | flush i count =>
    obtain ⟨w, hi, hcase⟩ := Option.bind_eq_some_iff.mp hstep
    exact h.flush hi hcase
  | rename i ok =>
    obtain ⟨w, hi, hcase⟩ := Option.bind_eq_some_iff.mp hstep
    exact h.rename hi (hclean w hi) hcase
  | removeTarget i ok =>
    obtain ⟨w, hi, hcase⟩ := Option.bind_eq_some_iff.mp hstep
    exact h.removeTarget hi (hclean w hi) hcase
  | removeTmp i ok =>
    obtain ⟨w, hi, hcase⟩ := Option.bind_eq_some_iff.mp hstep
    exact h.removeTmp hi (hclean w hi) hcase

theorem Inv.atomic (h : Inv files s) : Atomic files s := by
  refine ⟨h.completed, ?_⟩
  intro p
  by_cases htmp : ∃ i f, s.tmpFile i = some f ∧ p = tmpOf f.target
  · obtain ⟨i, f, hi, rfl⟩ := htmp
    exact Or.inr ⟨i, f, hi, rfl, h.coherent.free i f hi⟩
  · exact Or.inl (h.coherent.exact p fun i f hi heq => htmp ⟨i, f, hi, heq.symm⟩)

end Steps

/-- Along a run of clean steps, from any files, every read finds the bytes of the last
    complete write, and no other file changes. -/
theorem writes_atomic (pl : Platform) (root : List Char) (files : FsPath → Option (List UInt8))
    (moves : List Move) :
    AllSteps (step pl root) Clean { disk := .ofFiles files } moves →
      AllStates (step pl root) (Atomic files) { disk := .ofFiles files } moves := by
  intro hclean
  refine (allStates_of_invariant (I := Inv files) (fun _ _ _ => Inv.step) ?_ hclean).mono
    fun _ => Inv.atomic
  refine ⟨⟨?_, ?_, ?_, ?_⟩, fun _ hw => absurd hw List.not_mem_nil,
    fun _ => ⟨fun hwrite => absurd hwrite List.not_mem_nil, fun ⟨_, _, hi, _⟩ => nomatch hi⟩⟩
  · exact fun _ _ hf => nomatch hf
  · exact fun _ _ _ _ hf => nomatch hf
  · exact fun _ _ hf => nomatch hf
  · intro p _
    exact Disk.ofFiles_contents files p

/-- A writer alone, whose first rename fails and whose second does not. -/
theorem one_write :
    AllStates (step .posix "/data".toList) (Atomic fun _ => none) { disk := .ofFiles fun _ => none }
      [.call "notes".toList "state".toList [9], .mkdir 0 true, .openTmp 0 true, .write 0 1 true,
        .flush 0 1, .rename 0 false, .removeTarget 0 false, .rename 0 true] :=
  writes_atomic .posix "/data".toList (fun _ => none) _ (by decide)

/-- Between the removal of the target and the second rename a read finds nothing, although a
    write has returned ok. -/
example :
    let root := "/data".toList
    let target := (FsPath.ofText .posix root).extend ["notes".toList, "state".toList]
    (run (step .posix root) { disk := .ofFiles fun _ => none }
      [.call "notes".toList "state".toList [7], .mkdir 0 true, .openTmp 0 true, .write 0 1 true,
        .flush 0 1, .rename 0 true,
        .call "notes".toList "state".toList [9], .mkdir 1 true, .openTmp 1 true, .write 1 1 true,
        .flush 1 1, .rename 1 false, .removeTarget 1 true]).map
      (fun s => (s.completed, s.read target)) = some ([(target, [7])], none) := by decide

/-- Two keys of one plugin: the temporary name of `state` is the key `state.tmp`. A write of
    the first succeeds and the other file is gone. -/
theorem sibling_key_lost :
    let root := "/data".toList
    let moves : List Move := [
      .call "notes".toList "state.tmp".toList [7], .mkdir 0 true, .openTmp 0 true,
      .write 0 1 true, .flush 0 1, .rename 0 true,
      .call "notes".toList "state".toList [9], .mkdir 1 true, .openTmp 1 true,
      .write 1 1 true, .flush 1 1, .rename 1 true]
    let sibling := (FsPath.ofText .posix root).extend ["notes".toList, "state.tmp".toList]
    (run (step .posix root) { disk := .ofFiles fun _ => none } moves).map (fun s =>
        (s.writers.map (·.stage), s.read sibling)) =
        some ([.returned .ok, .returned .ok], none) ∧
      ¬ AllStates (step .posix root) (Atomic fun _ => none) { disk := .ofFiles fun _ => none }
        moves := by
  refine ⟨by decide, ?_⟩
  intro h
  have hlast := h.last (t := (run (step .posix "/data".toList) { disk := .ofFiles fun _ => none }
    [.call "notes".toList "state.tmp".toList [7], .mkdir 0 true, .openTmp 0 true,
      .write 0 1 true, .flush 0 1, .rename 0 true,
      .call "notes".toList "state".toList [9], .mkdir 1 true, .openTmp 1 true,
      .write 1 1 true, .flush 1 1, .rename 1 true]).get (by decide)) (by rfl)
  rcases hlast.reads ((FsPath.ofText .posix "/data".toList).extend
    ["notes".toList, "state.tmp".toList]) with hread | ⟨i, f, hf, -⟩
  · exact absurd hread (by decide)
  · match i, hf with
    | 0, hf => exact nomatch hf
    | 1, hf => exact nomatch hf
    | i + 2, hf => exact nomatch hf

end PluginFs

end TruellmEngine.Bridge
