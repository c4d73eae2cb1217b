/-
  The private stores of the plugins: `vtable_plugin_data_dir` and the `plugin_fs` calls on one
  tree of files below the data root. A byte string is a list of characters, as in the checks of
  the paths.

  A plugin is the id that its calls pass: the functions take `plugin_id` as it comes, so a
  plugin that passes the id of another one is that one here. Each call is whole; they run one
  after another, in any order. Whether the data root can be made where it is missing does not
  change in a run (`DataRoot.creatable`); all else the system may refuse at any call.

  `plugins_isolated`: whatever programs the plugins run and however their calls interleave,
  each of them is at every point where it would be with the tree to itself. `write_stays`: a
  file that a plugin wrote holds these bytes until the same plugin writes or unlinks it, or
  writes the file that it is the temporary file of.
-/
import TruellmEngine.Bridge.PluginFs
import TruellmEngine.Lib.FileTree
import TruellmEngine.Lib.Interleave

namespace TruellmEngine.Bridge.PluginData

open Lib FileTree

abbrev Name := List Char

abbrev Tree := FileTree Name

/-- `plugin_data_root_`, and whether the system lets it be made where it is missing. -/
structure DataRoot where
  text : List Char
  creatable : Bool

/-- What the system does in one call, where the tree alone does not settle it. `stored` is how
    many bytes of a write reach the file, `listing` what the iterator yields of the names of a
    directory. -/
structure Answers where
  visible : Bool := true
  mayMakeDir : List Name → Bool := fun _ => true
  opens : Bool := true
  stored : Nat → Nat := id
  writes : Bool := true
  renames : Bool := true
  removes : Bool := true
  renamesAgain : Bool := true
  cleans : Bool := true
  reads : Bool := true
  listing : List Name → List Name := id
  allocates : Bool := true

def Answers.mkdir (os : Answers) (root : DataRoot) (p : List Name) : Bool :=
  if p = [] then root.creatable else os.mayMakeDir p

/-- The null pointers among the arguments are `none`. -/
inductive FsCall where
  | dataDir
  | write (rel : Option (List Char)) (bytes : Option (List UInt8))
  | read (rel : Option (List Char))
  | unlink (rel : Option (List Char))
  | listdir (rel : Option (List Char))

inductive FsResult where
  | dir (path : Option FsPath)
  | code (ec : PluginError)
  | bytes (content : List UInt8)
  | names (ns : List Name)
deriving DecidableEq

/-- The files below the root, and the keys of `per_plugin_dir_`. -/
structure State where
  tree : Tree
  dirs : List Name := []

/-! ## The calls -/

def tmpName (name : Name) : Name := name ++ ".tmp".toList

/-- The directory and the name of a resolved path, below the root. -/
def locate (root : DataRoot) (id : Name) (rel : List Char) : Option (List Name × Name) :=
  (resolvePluginPath .posix root.text id rel).bind fun path =>
    let below := path.names.drop (FsPath.ofText .posix root.text).dirNames.length
    below.getLast?.map fun name => (below.dropLast, name)

/-- A call that the system may refuse. -/
def sys (ok : Bool) (f : StateM Tree Bool) : StateM Tree Bool := if ok then f else pure false

/-- `vtable_plugin_fs_write`, behind its checks. -/
def fsWrite (root : DataRoot) (os : Answers) (dir : List Name) (name : Name)
    (bytes : List UInt8) : StateM Tree FsResult := do
  if ← createDirectories (os.mkdir root) dir then
    if ← sys os.opens (putFile dir (tmpName name) (bytes.take (os.stored bytes.length))) then
      if bytes.isEmpty || os.writes then
        if ← sys os.renames (renameFile dir (tmpName name) name) then pure (.code .ok)
        else do
          let _ ← sys os.removes (removeEntry dir name)
          if ← sys os.renamesAgain (renameFile dir (tmpName name) name) then pure (.code .ok)
          else do
            let _ ← sys os.cleans (removeEntry dir (tmpName name))
            pure (.code .internal)
      else pure (.code .internal)
    else pure (.code .internal)
  else pure (.code .internal)

/-- `vtable_plugin_fs_read`, behind its checks. -/
def fsRead (os : Answers) (dir : List Name) (name : Name) : StateM Tree FsResult := do
  match ← status (dir ++ [name]) with
  | some (.file content) =>
    pure (if os.visible then if os.reads then .bytes content else .code .internal
      else .code .notFound)
  | _ => pure (.code .notFound)

/-- `vtable_plugin_fs_unlink`, behind its checks. -/
def fsUnlink (os : Answers) (dir : List Name) (name : Name) : StateM Tree FsResult := do
  match ← status (dir ++ [name]) with
  | none => pure (.code .notFound)
  | some _ =>
    if os.visible then
      if ← sys os.removes (removeEntry dir name) then pure (.code .ok) else pure (.code .internal)
    else pure (.code .notFound)

/-- `vtable_plugin_fs_listdir`, behind its checks. -/
def fsListdir (os : Answers) (path : List Name) : StateM Tree FsResult := do
  match ← status path with
  | some .directory =>
    let ns ← list path
    pure (if os.visible then
      if os.allocates then .names (os.listing ns) else .code .internal
      else .code .notFound)
  | _ => pure (.code .notFound)

namespace State

variable (root : DataRoot) (id : Name) (s : State)

def onTree (f : StateM Tree FsResult) : State × FsResult :=
  ({ s with tree := (f.run s.tree).2 }, (f.run s.tree).1)

/-- The checks that `write`, `read` and `unlink` share. -/
def withTarget (rel : Option (List Char)) (f : List Name → Name → StateM Tree FsResult) :
    State × FsResult :=
  if root.text.isEmpty then (s, .code .permission)
  else
    match rel.bind (locate root id) with
    | none => (s, .code .invalid)
    | some (dir, name) => s.onTree (f dir name)

/-- `vtable_plugin_data_dir` -/
def dataDir (os : Answers) : State × FsResult :=
  let path := (FsPath.ofText .posix root.text).join .posix id
  if root.text.isEmpty || !pluginIdOk id then (s, .dir none)
  else if id ∈ s.dirs then (s, .dir (some path))
  else
    let made := (createDirectories (os.mkdir root) [id]).run s.tree
    if made.1 then ({ tree := made.2, dirs := id :: s.dirs }, .dir (some path))
    else ({ s with tree := made.2 }, .dir none)

def perform (call : FsCall) (os : Answers) : State × FsResult :=
  match call with
  | .dataDir => s.dataDir root id os
  | .write _ none =>
    (s, .code (if root.text.isEmpty then .permission else .invalid))
  | .write rel (some bytes) =>
    s.withTarget root id rel fun dir name => fsWrite root os dir name bytes
  | .read rel => s.withTarget root id rel (fsRead os)
  | .unlink rel => s.withTarget root id rel (fsUnlink os)
  | .listdir rel =>
    if rel = some [] then
      if root.text.isEmpty then (s, .code .permission)
      else if !pluginIdOk id then (s, .code .invalid)
      else s.onTree (fsListdir os [id])
    else s.withTarget root id rel fun dir name => fsListdir os (dir ++ [name])

end State

/-! ## Where the calls are at work -/

section Locate

variable {root : DataRoot} {id : Name} {rel : List Char} {dir : List Name} {name : Name}

/-- A target is an entry in the plugin's directory or below it, at the resolved path; its
    temporary file is its neighbour. -/
theorem locate_some (h : locate root id rel = some (dir, name)) :
    (∃ rest, dir = id :: rest) ∧
    ∃ path, resolvePluginPath .posix root.text id rel = some path ∧
      path = (FsPath.ofText .posix root.text).extend (dir ++ [name]) ∧
      tmpOf path = (FsPath.ofText .posix root.text).extend (dir ++ [tmpName name]) := by
  obtain ⟨path, hpath, hsplit⟩ := Option.bind_eq_some_iff.mp h
  have hinside := (resolve_inside_iff .posix root.text id rel).mpr (Or.inl rfl)
  rw [hpath] at hinside
  rcases hinside with hnone | ⟨names, hne, -, hext⟩
  · cases hnone
  · cases hext
    obtain ⟨front, last, rfl⟩ := (List.eq_nil_or_concat names).resolve_left hne
    rw [List.concat_eq_append] at hpath hsplit
    have hbelow : ((FsPath.ofText .posix root.text).extend (id :: (front ++ [last]))).names.drop
        (FsPath.ofText .posix root.text).dirNames.length = (id :: front) ++ [last] :=
      List.drop_left
    rw [hbelow] at hsplit
    dsimp only at hsplit
    rw [List.getLast?_concat, List.dropLast_concat] at hsplit
    cases hsplit
    refine ⟨⟨front, rfl⟩, _, hpath, rfl, ?_⟩
    unfold tmpOf concatPath FsPath.extend
    dsimp only
    rw [← List.cons_append, ← List.append_assoc, List.getLast?_concat]
    dsimp only
    rw [List.dropLast_concat, List.append_assoc]
    rfl

end Locate

/-! ## Isolation -/

/-- The two states are the same for plugin `id`. -/
structure SameFor (root : DataRoot) (id : Name) (s s' : State) : Prop where
  tree : Agree root.creatable id s.tree s'.tree
  dirs : id ∈ s.dirs ↔ id ∈ s'.dirs

section Programs

variable {root : DataRoot} {id : Name} {rest : List Name} {name : Name} {c : Bool}

theorem keeps_sys {ok : Bool} {f : StateM Tree Bool} (hf : Keeps c id f) :
    Keeps c id (sys ok f) := by
  unfold sys
  split
  · exact hf
  · exact Keeps.pure false

theorem keeps_fsWrite (os : Answers) (bytes : List UInt8) :
    Keeps root.creatable id (fsWrite root os (id :: rest) name bytes) := by
  have hfail : Keeps root.creatable id
      (pure (.code .internal) : StateM Tree FsResult) := Keeps.pure _
  have hdone : Keeps root.creatable id (pure (.code .ok) : StateM Tree FsResult) := Keeps.pure _
  refine (keeps_createDirectories (by simp [Answers.mkdir]) rest).cond ?_ hfail
  refine (keeps_sys (keeps_putFile _ _)).cond ?_ hfail
  split
  · refine (keeps_sys (keeps_renameFile _ _)).cond hdone ?_
    refine (keeps_sys (keeps_removeEntry _)).bind fun _ => ?_
    refine (keeps_sys (keeps_renameFile _ _)).cond hdone ?_
    exact (keeps_sys (keeps_removeEntry _)).bind fun _ => hfail
  · exact hfail

theorem keeps_fsRead (os : Answers) : Keeps c id (fsRead os (id :: rest) name) := by
  refine (keeps_status (rest ++ [name])).bind ?_
  rintro (_ | _ | content)
  · exact Keeps.pure _
  · exact Keeps.pure _
  · exact Keeps.pure _

theorem keeps_fsUnlink (os : Answers) : Keeps c id (fsUnlink os (id :: rest) name) := by
  refine (keeps_status (rest ++ [name])).bind ?_
  rintro (_ | node)
  · exact Keeps.pure _
  · dsimp only
    split
    · exact (keeps_sys (keeps_removeEntry _)).cond (Keeps.pure _) (Keeps.pure _)
    · exact Keeps.pure _

theorem keeps_fsListdir (os : Answers) : Keeps c id (fsListdir os (id :: rest)) := by
  refine (keeps_status rest).bind ?_
  rintro (_ | _ | content)
  · exact Keeps.pure _
  · exact (keeps_list rest).bind fun ns => Keeps.pure _
  · exact Keeps.pure _

end Programs

section Calls

variable {root : DataRoot} {id other : Name} {s s' : State}

theorem SameFor.onTree {f : StateM Tree FsResult} (h : SameFor root id s s')
    (hf : Keeps root.creatable id f) :
    (s.onTree f).2 = (s'.onTree f).2 ∧ SameFor root id (s.onTree f).1 (s'.onTree f).1 := by
  obtain ⟨hsame, hagree⟩ := hf.own _ _ h.tree
  exact ⟨hsame, hagree, h.dirs⟩

theorem SameFor.onTree_other {f : StateM Tree FsResult} (h : SameFor root other s s')
    (hne : other ≠ id) (hf : Keeps root.creatable id f) :
    SameFor root other (s.onTree f).1 s' :=
  ⟨hf.other other hne _ _ h.tree, h.dirs⟩

/-- A call does the same in states that are the same for its plugin, and leaves them the
    same. -/
theorem SameFor.perform (h : SameFor root id s s') (call : FsCall) (os : Answers) :
    (s.perform root id call os).2 = (s'.perform root id call os).2 ∧
      SameFor root id (s.perform root id call os).1 (s'.perform root id call os).1 := by
  have htarget : ∀ (rel : Option (List Char)) (f : List Name → Name → StateM Tree FsResult),
      (∀ rest name, Keeps root.creatable id (f (id :: rest) name)) →
      (s.withTarget root id rel f).2 = (s'.withTarget root id rel f).2 ∧
        SameFor root id (s.withTarget root id rel f).1 (s'.withTarget root id rel f).1 := by
    intro rel f hf
    unfold State.withTarget
    split
    · exact ⟨rfl, h⟩
    · rcases hloc : rel.bind (locate root id) with _ | ⟨dir, name⟩
      · exact ⟨rfl, h⟩
      · obtain ⟨text, -, htext⟩ := Option.bind_eq_some_iff.mp hloc
        obtain ⟨⟨rest, rfl⟩, -⟩ := locate_some htext
        exact h.onTree (hf rest name)
  cases call with
  | dataDir =>
    have hkeeps : Keeps root.creatable id (createDirectories (os.mkdir root) [id]) :=
      keeps_createDirectories (by simp [Answers.mkdir]) []
    obtain ⟨hsame, hagree⟩ := hkeeps.own _ _ h.tree
    unfold State.perform State.dataDir
    dsimp only
    by_cases hroot : (root.text.isEmpty || !pluginIdOk id) = true
    · rw [if_pos hroot, if_pos hroot]
      exact ⟨rfl, h⟩
    · rw [if_neg hroot, if_neg hroot]
      by_cases hin : id ∈ s.dirs
      · rw [if_pos hin, if_pos (h.dirs.mp hin)]
        exact ⟨rfl, h⟩
      · rw [if_neg hin, if_neg fun hin' => hin (h.dirs.mpr hin'), hsame]
        split
        · exact ⟨rfl, hagree, by simp⟩
        · exact ⟨rfl, hagree, h.dirs⟩
  | write rel bytes =>
    cases bytes with
    | none => exact ⟨rfl, h⟩
    | some bytes => exact htarget rel _ fun _ _ => keeps_fsWrite os bytes
  | read rel => exact htarget rel _ fun _ _ => keeps_fsRead os
  | unlink rel => exact htarget rel _ fun _ _ => keeps_fsUnlink os
  | listdir rel =>
    unfold State.perform
    dsimp only
    split
    · split
      · exact ⟨rfl, h⟩
      · split
        · exact ⟨rfl, h⟩
        · exact h.onTree (keeps_fsListdir os)
    · exact htarget rel _ fun _ _ => keeps_fsListdir os

/-- A call leaves the state the same for every other plugin. -/
theorem SameFor.perform_other (h : SameFor root other s s') (hne : other ≠ id) (call : FsCall)
    (os : Answers) : SameFor root other (s.perform root id call os).1 s' := by
  have htarget : ∀ (rel : Option (List Char)) (f : List Name → Name → StateM Tree FsResult),
      (∀ rest name, Keeps root.creatable id (f (id :: rest) name)) →
      SameFor root other (s.withTarget root id rel f).1 s' := by
    intro rel f hf
    unfold State.withTarget
    split
    · exact h
    · rcases hloc : rel.bind (locate root id) with _ | ⟨dir, name⟩
      · exact h
      · obtain ⟨text, -, htext⟩ := Option.bind_eq_some_iff.mp hloc
        obtain ⟨⟨rest, rfl⟩, -⟩ := locate_some htext
        exact h.onTree_other hne (hf rest name)
  cases call with
  | dataDir =>
    have hkeeps : Keeps root.creatable id (createDirectories (os.mkdir root) [id]) :=
      keeps_createDirectories (by simp [Answers.mkdir]) []
    have hagree := hkeeps.other other hne _ _ h.tree
    unfold State.perform State.dataDir
    dsimp only
    split
    · exact h
    · split
      · exact h
      · split
        · refine ⟨hagree, ?_⟩
          rw [← h.dirs]
          simp [hne]
        · exact ⟨hagree, h.dirs⟩
  | write rel bytes =>
    cases bytes with
    | none => exact h
    | some bytes => exact htarget rel _ fun _ _ => keeps_fsWrite os bytes
  | read rel => exact htarget rel _ fun _ _ => keeps_fsRead os
  | unlink rel => exact htarget rel _ fun _ _ => keeps_fsUnlink os
  | listdir rel =>
    unfold State.perform
    dsimp only
    split
    · split
      · exact h
      · split
        · exact h
        · exact h.onTree_other hne (keeps_fsListdir os)
    · exact htarget rel _ fun _ _ => keeps_fsListdir os

end Calls

/-! ## Plugins side by side -/

/-- The program of a plugin: its next call and how the system answers it, and what the plugin
    makes of the result. -/
structure Program (L : Type) where
  next : L → FsCall × Answers
  learn : L → FsResult → L

variable {L : Type} (root : DataRoot) (plugins : Name → Program L)

/-- A plugin makes its next call. -/
def act (id : Name) (s : State) (l : L) : State × L :=
  let called := s.perform root id ((plugins id).next l).1 ((plugins id).next l).2
  (called.1, (plugins id).learn l called.2)

theorem unwinding : Threads.Unwinding (act root plugins) (fun _ => True) (fun _ _ => True)
    (fun id s s' _ => SameFor root id s s') where
  inv := fun _ _ _ _ _ => trivial
  own := by
    intro w id s' _ _ h
    obtain ⟨hsame, hagree⟩ := h.perform ((plugins id).next (w.locals id)).1
      ((plugins id).next (w.locals id)).2
    refine ⟨?_, hagree⟩
    unfold act
    dsimp only
    rw [hsame]
  other := fun _ _ _ _ _ _ hne _ _ h => h.perform_other hne _ _

/-- Whatever programs the plugins run and in whatever order their calls are made, every
    plugin is at every point where the same calls would have brought it with the tree of
    files to itself: no result that it ever sees depends on another plugin. -/
theorem plugins_isolated (tree : Tree) (start : Name → L) (order : List Name) :
    AllStates (Threads.step (act root plugins))
      (Threads.AsAlone (act root plugins) ⟨tree, []⟩ start)
      (Threads.start ⟨tree, []⟩ start) order :=
  (unwinding root plugins).asAlone
    ⟨trivial, fun _ => ⟨rfl, agree_refl tree, Iff.rfl⟩⟩ (allSteps_of_labels fun _ _ => trivial)

/-! ## A written file stays -/

section Written

variable {root : DataRoot} {id : Name} {dir : List Name} {name : Name} {q : List Name}
  {bytes : List UInt8} {os : Answers} {P : Tree → Prop}

theorem tmpName_ne (name : Name) : tmpName name ≠ name := by
  unfold tmpName
  simp

theorem spares_sys {ok : Bool} {f : StateM Tree Bool} (hf : Spares q f) :
    Spares q (sys ok f) := by
  unfold sys
  split
  · exact hf
  · exact Spares.pure false

/-- What a call that answers `true` leads to, a call that may be refused leads to. -/
theorem sys_leads {ok : Bool} {f : StateM Tree Bool} {Q : Bool → Tree → Prop}
    (hf : Leads P f Q) (hrefused : ∀ t, P t → Q false t) : Leads P (sys ok f) Q := by
  unfold sys
  split
  · exact hf
  · exact hrefused

/-- The file under the temporary name, and under the target's when it is renamed. -/
theorem rename_leads (ok : Bool) :
    Leads (fun t => t.node (dir ++ [tmpName name]) = some (.file bytes))
      (sys ok (renameFile dir (tmpName name) name)) fun renamed t =>
        t.node (dir ++ [if renamed then name else tmpName name]) = some (.file bytes) :=
  sys_leads (renameFile_leads (tmpName_ne name)) fun _ h => h

/-- A write that returns ok leaves what reached the file under the target's name, also when
    it went by way of removing the target. -/
theorem fsWrite_leads : Leads (fun _ => True) (fsWrite root os dir name bytes) fun res t =>
    res = .code .ok →
      t.node (dir ++ [name]) = some (.file (bytes.take (os.stored bytes.length))) := by
  have hfail : ∀ P : Tree → Prop, Leads P (pure (FsResult.code .internal)) fun res t =>
      res = FsResult.code .ok →
        t.node (dir ++ [name]) = some (.file (bytes.take (os.stored bytes.length))) :=
    fun P => Leads.pure fun t _ h => by cases h
  refine Leads.cond (Q := fun _ _ => True) (fun _ _ => trivial) ?_ (hfail _)
  refine Leads.cond (sys_leads (putFile_leads dir _ _) fun t _ h => by cases h) ?_ (hfail _)
  split
  · refine Leads.cond (Q := fun renamed t => t.node (dir ++ [if renamed then name else
        tmpName name]) = some (.file (bytes.take (os.stored bytes.length))))
      (fun t ht => rename_leads os.renames t (ht rfl)) (Leads.pure fun t ht _ => ht) ?_
    have hspared : Leads (fun t => t.node (dir ++ [tmpName name]) =
          some (.file (bytes.take (os.stored bytes.length))))
        (sys os.removes (removeEntry dir name)) fun _ t => t.node (dir ++ [tmpName name]) =
          some (.file (bytes.take (os.stored bytes.length))) := by
      have hne : dir ++ [name] ≠ dir ++ [tmpName name] := by simpa using (tmpName_ne name).symm
      exact fun t ht => spares_sys (spares_removeEntry hne) t _ ht
    refine hspared.bind fun _ => ?_
    refine Leads.cond (rename_leads os.renamesAgain) (Leads.pure fun t ht _ => ht) ?_
    exact Leads.bind (Q := fun _ _ => True) (fun _ _ => trivial) fun _ => hfail _
  · exact hfail _

theorem spares_fsWrite (hname : dir ++ [name] ≠ q) (htmp : dir ++ [tmpName name] ≠ q) :
    Spares q (fsWrite root os dir name bytes) := by
  have hrename : ∀ ok, Spares q (sys ok (renameFile dir (tmpName name) name)) :=
    fun _ => spares_sys (spares_renameFile htmp hname)
  refine (spares_createDirectories _ dir).cond ?_ (Spares.pure _)
  refine (spares_sys (spares_putFile _ htmp)).cond ?_ (Spares.pure _)
  split
  · refine (hrename _).cond (Spares.pure _) ?_
    refine (spares_sys (spares_removeEntry hname)).bind fun _ => ?_
    refine (hrename _).cond (Spares.pure _) ?_
    exact (spares_sys (spares_removeEntry htmp)).bind fun _ => Spares.pure _
  · exact Spares.pure _

theorem spares_fsUnlink (hname : dir ++ [name] ≠ q) : Spares q (fsUnlink os dir name) := by
  refine (spares_status (dir ++ [name])).bind ?_
  rintro (_ | node)
  · exact Spares.pure _
  · dsimp only
    split
    · exact (spares_sys (spares_removeEntry hname)).cond (Spares.pure _) (Spares.pure _)
    · exact Spares.pure _

theorem spares_fsRead : Spares q (fsRead os dir name) := by
  refine (spares_status (dir ++ [name])).bind ?_
  rintro (_ | _ | content)
  · exact Spares.pure _
  · exact Spares.pure _
  · exact Spares.pure _

theorem spares_fsListdir : Spares q (fsListdir os dir) := by
  refine (spares_status dir).bind ?_
  rintro (_ | _ | content)
  · exact Spares.pure _
  · exact (spares_list dir).bind fun ns => Spares.pure _
  · exact Spares.pure _

end Written

structure Made where
  id : Name
  call : FsCall
  os : Answers

def step (s : State) (made : Made) : Option State :=
  some (s.perform root made.id made.call made.os).1

/-- The call writes or unlinks the file at `q`, or writes the file that `q` is the temporary
    name of. -/
def touches (q : List Name) (made : Made) : Bool :=
  match made.call with
  | .write rel (some _) => (rel.bind (locate root made.id)).any fun at' =>
      at'.1 ++ [at'.2] == q || at'.1 ++ [tmpName at'.2] == q
  | .unlink rel => (rel.bind (locate root made.id)).any fun at' => at'.1 ++ [at'.2] == q
  | _ => false

section Stays

variable {root : DataRoot} {s s' : State} {q : List Name} {bytes : List UInt8}

/-- Only the plugin in whose directory a file lies can touch it. -/
theorem touches_own {made : Made} (h : touches root q made = true) : ∃ r, q = made.id :: r := by
  obtain ⟨id, call, os⟩ := made
  have hloc : ∀ {rel : Option (List Char)} {dir : List Name} {name : Name},
      rel.bind (locate root id) = some (dir, name) → ∃ rest, dir = id :: rest := by
    intro rel dir name hrel
    obtain ⟨text, -, htext⟩ := Option.bind_eq_some_iff.mp hrel
    exact (locate_some htext).1
  unfold touches at h
  dsimp only at h
  split at h
  · obtain ⟨⟨dir, name⟩, hrel, heq⟩ := (Option.any_eq_true _ _).mp h
    obtain ⟨rest, rfl⟩ := hloc hrel
    rcases Bool.or_eq_true_iff.mp heq with heq | heq
    · exact ⟨_, (beq_iff_eq.mp heq).symm⟩
    · exact ⟨_, (beq_iff_eq.mp heq).symm⟩
  · obtain ⟨⟨dir, name⟩, hrel, heq⟩ := (Option.any_eq_true _ _).mp h
    obtain ⟨rest, rfl⟩ := hloc hrel
    exact ⟨_, (beq_iff_eq.mp heq).symm⟩
  · cases h

theorem onTree_keeps {f : StateM Tree FsResult} (hf : Spares q f)
    (h : s.tree.node q = some (.file bytes)) :
    (s.onTree f).1.tree.node q = some (.file bytes) := hf _ _ h

/-- A call that does not touch a file leaves it as it is. -/
theorem step_keeps {made : Made} (hno : touches root q made = false)
    (h : s.tree.node q = some (.file bytes)) (hst : step root s made = some s') :
    s'.tree.node q = some (.file bytes) := by
  obtain ⟨id, call, os⟩ := made
  cases hst
  have htarget : ∀ (rel : Option (List Char)) (f : List Name → Name → StateM Tree FsResult),
      (∀ dir name, rel.bind (locate root id) = some (dir, name) → Spares q (f dir name)) →
      (s.withTarget root id rel f).1.tree.node q = some (.file bytes) := by
    intro rel f hf
    unfold State.withTarget
    split
    · exact h
    · split
      · exact h
      · exact onTree_keeps (hf _ _ ‹_›) h
  cases call with
  | dataDir =>
    have hmade := spares_createDirectories (q := q) (os.mkdir root) [id] _ _ h
    unfold State.perform State.dataDir
    dsimp only
    split
    · exact h
    · split
      · exact h
      · split
        · exact hmade
        · exact hmade
  | write rel bytes =>
    cases bytes with
    | none => exact h
    | some bytes =>
      refine htarget rel _ fun dir name hrel => ?_
      unfold touches at hno
      dsimp only at hno
      rw [hrel, Option.any_some, Bool.or_eq_false_iff] at hno
      exact spares_fsWrite (beq_eq_false_iff_ne.mp hno.1) (beq_eq_false_iff_ne.mp hno.2)
  | read rel => exact htarget rel _ fun _ _ _ => spares_fsRead
  | unlink rel =>
    refine htarget rel _ fun dir name hrel => ?_
    unfold touches at hno
    dsimp only at hno
    rw [hrel, Option.any_some] at hno
    exact spares_fsUnlink (beq_eq_false_iff_ne.mp hno)
  | listdir rel =>
    unfold State.perform
    dsimp only
    split
    · split
      · exact h
      · split
        · exact h
        · exact onTree_keeps spares_fsListdir h
    · exact htarget rel _ fun _ _ _ => spares_fsListdir

theorem write_written {id : Name} {rel : List Char} {os : Answers}
    (h : (s.perform root id (.write (some rel) (some bytes)) os).2 = .code .ok) :
    root.text.isEmpty = false ∧ ∃ dir name, locate root id rel = some (dir, name) ∧
      (s.perform root id (.write (some rel) (some bytes)) os).1.tree.node (dir ++ [name]) =
        some (.file (bytes.take (os.stored bytes.length))) := by
  unfold State.perform State.withTarget at h ⊢
  dsimp only [Option.bind_some] at h ⊢
  by_cases hroot : root.text.isEmpty = true
  · rw [if_pos hroot] at h
    cases h
  · rw [if_neg hroot] at h ⊢
    rcases hloc : locate root id rel with _ | ⟨dir, name⟩
    · rw [hloc] at h
      cases h
    · rw [hloc] at h
      exact ⟨by simpa using hroot, dir, name, rfl, fsWrite_leads _ trivial h⟩

theorem read_of_file {id : Name} {rel : List Char} {os : Answers} {dir : List Name} {name : Name}
    (hroot : root.text.isEmpty = false) (hloc : locate root id rel = some (dir, name))
    (h : s.tree.node (dir ++ [name]) = some (.file bytes)) :
    (s.perform root id (.read (some rel)) os).2 =
      if os.visible then if os.reads then .bytes bytes else .code .internal
      else .code .notFound := by
  unfold State.perform State.withTarget
  dsimp only [Option.bind_some]
  rw [if_neg (by simp [hroot]), hloc]
  change (StateT.run (match s.tree.node (dir ++ [name]) with
    | some (.file content) => pure (if os.visible then if os.reads then .bytes content else
        .code .internal else .code .notFound)
    | _ => pure (FsResult.code .notFound) : StateM Tree FsResult) s.tree).1 = _
  rw [h]
  rfl

/-- Behind a write that returned ok and whose bytes have all reached the file, every read of
    the same path that the system lets through returns these bytes, as long as the plugin
    itself has not touched the file: whatever the calls in between are, whoever makes them
    and whatever of them fails. -/
theorem write_stays {id : Name} {rel : List Char} {os : Answers}
    (hwrite : (s.perform root id (.write (some rel) (some bytes)) os).2 = .code .ok)
    (hstored : bytes.length ≤ os.stored bytes.length) {later : List Made}
    (hlater : ∀ dir name, locate root id rel = some (dir, name) →
      ∀ made ∈ later, made.id = id → touches root (dir ++ [name]) made = false)
    (hrun : run (step root) (s.perform root id (.write (some rel) (some bytes)) os).1 later =
      some s') {os' : Answers} (hvisible : os'.visible = true) (hreads : os'.reads = true) :
    (s'.perform root id (.read (some rel)) os').2 = .bytes bytes := by
  obtain ⟨hroot, dir, name, hloc, hwritten⟩ := write_written hwrite
  rw [List.take_of_length_le hstored] at hwritten
  have huntouched : ∀ made ∈ later, touches root (dir ++ [name]) made = false := by
    intro made hmade
    rw [← Bool.not_eq_true]
    intro htouch
    obtain ⟨⟨rest, hdir⟩, -⟩ := locate_some hloc
    obtain ⟨r, hown⟩ := touches_own htouch
    rw [hdir] at hown
    have hno := hlater dir name hloc made hmade (List.cons.inj hown).1.symm
    rw [htouch] at hno
    cases hno
  have hall : AllStates (step root)
      (fun s => s.tree.node (dir ++ [name]) = some (.file bytes))
      (s.perform root id (.write (some rel) (some bytes)) os).1 later :=
    allStates_of_invariant (fun _ _ _ h hno hst => step_keeps hno h hst) hwritten
      (allSteps_of_labels huntouched)
  rw [read_of_file hroot hloc (hall.last hrun), if_pos hvisible, if_pos hreads]

/-- Two plugins with files of the same names, one of which unlinks its own. -/
def twoStores : List Made :=
  [⟨"b".toList, .write (some "d/x".toList) (some [9]), {}⟩,
    ⟨"a".toList, .write (some "d/y".toList) (some [3]), {}⟩,
    ⟨"b".toList, .unlink (some "d/x".toList), {}⟩,
    ⟨"a".toList, .write (some "d/x/z".toList) (some [4]), {}⟩]

def tinyRoot : DataRoot := ⟨"/data".toList, true⟩

/-- The first write of plugin `a`. -/
def firstWrite : State × FsResult :=
  (State.mk absent []).perform tinyRoot "a".toList (.write (some "d/x".toList) (some [1, 2])) {}

theorem write_stays_two : ∃ s', run (step tinyRoot) firstWrite.1 twoStores = some s' ∧
    (s'.perform tinyRoot "a".toList (.read (some "d/x".toList)) {}).2 = .bytes [1, 2] := by
  obtain ⟨s', hrun⟩ : ∃ s', run (step tinyRoot) firstWrite.1 twoStores = some s' := ⟨_, rfl⟩
  have hok : firstWrite.2 = .code .ok := by decide
  have hat : locate tinyRoot "a".toList "d/x".toList =
      some (["a".toList, "d".toList], "x".toList) := by decide
  refine ⟨s', hrun, write_stays hok (Nat.le_refl _) ?_ hrun rfl rfl⟩
  intro dir name hloc
  rw [hat] at hloc
  cases hloc
  decide

end Stays

end TruellmEngine.Bridge.PluginData
