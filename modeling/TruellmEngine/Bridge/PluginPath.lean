/-
  The sandbox of the plugin file calls: `plugin_id_ok`, `split_relpath_ok` and
  `resolve_plugin_path`. A byte string is a list of characters, one for each byte; the
  result `none` is the empty string.

  `split_relpath_ok` looks for a drive at the head of the relative path only.
  `resolve_inside_iff` says when the resolved path lies below the plugin's directory: on
  POSIX always, on Windows unless a later component brings a drive along
  (`drive_in_the_middle`). There a component with another drive than the root's replaces
  the whole path, and one with the root's own drive loses the drive, so that what is left
  of it can be empty or dots.
-/
import TruellmEngine.Lib.FsPath

namespace TruellmEngine.Bridge

open Lib

/-! ## The checks -/

def isIdChar (c : Char) : Bool :=
  decide ('a' ≤ c ∧ c ≤ 'z') || decide ('A' ≤ c ∧ c ≤ 'Z') || decide ('0' ≤ c ∧ c ≤ '9') ||
    c == '_'

/-- `plugin_id_ok` -/
def pluginIdOk (id : List Char) : Bool :=
  !(id.isEmpty || id.length > 64) && id.all isIdChar

def isDots (name : List Char) : Bool := name == ['.'] || name == ['.', '.']

/-- The loop of `split_relpath_ok` and the checks behind it: the rest of the text, the
    component that is being read and the parts so far. -/
def splitLoop : List Char → List Char → List (List Char) → Option (List (List Char))
  | [], cur, parts =>
    if cur.isEmpty then none
    else if isDots cur then none
    else some (parts ++ [cur])
  | c :: rest, cur, parts =>
    if c == '/' || c == '\\' then
      if cur.isEmpty then none
      else if isDots cur then none
      else splitLoop rest [] (parts ++ [cur])
    else splitLoop rest (cur ++ [c]) parts

/-- `split_relpath_ok` -/
def splitRelpathOk (rel : List Char) : Option (List (List Char)) :=
  if rel.isEmpty || rel.length > 4096 then none
  else if rel.any (· == '\x00') then none
  else if rel.head?.any fun c => c == '/' || c == '\\' then none
  else if hasDrive rel then none
  else splitLoop rel [] []

/-- `resolve_plugin_path` -/
def resolvePluginPath (pl : Platform) (root id rel : List Char) : Option FsPath :=
  if root.isEmpty || !pluginIdOk id then none
  else
    match splitRelpathOk rel with
    | none => none
    | some parts => some (parts.foldl (FsPath.join pl) ((FsPath.ofText pl root).join pl id))

/-! ## What the checks let through -/

/-- A name that stays in the directory it is looked up in. -/
def IsName (name : List Char) : Prop := name ≠ [] ∧ name ≠ ['.'] ∧ name ≠ ['.', '.']

instance : DecidablePred IsName := fun _ => inferInstanceAs (Decidable (_ ∧ _ ∧ _))

theorem isName_of_checks {cur : List Char} (hne : ¬ cur.isEmpty = true)
    (hdots : ¬ isDots cur = true) : IsName cur := by
  simp only [isDots, Bool.or_eq_true, beq_iff_eq, not_or] at hdots
  exact ⟨by simpa using hne, hdots⟩

def NoSeps (seg : List Char) : Prop := ∀ c ∈ seg, c ≠ '/' ∧ c ≠ '\\'

theorem NoSeps.isSep {seg : List Char} (h : NoSeps seg) (pl : Platform) :
    ∀ c ∈ seg, pl.isSep c = false := by
  intro c hc
  obtain ⟨hslash, hback⟩ := h c hc
  cases pl <;> simp [Platform.isSep, hslash, hback]

/-- The parts are names, and the first of them is read from the head of the text. -/
theorem splitLoop_parts {rest cur : List Char} {parts out : List (List Char)}
    (hcur : NoSeps cur) (h : splitLoop rest cur parts = some out) :
    ∃ ahead new, out = parts ++ (cur ++ ahead) :: new ∧ ahead <+: rest ∧
      ∀ part ∈ (cur ++ ahead) :: new, IsName part ∧ NoSeps part := by
  induction rest generalizing cur parts with
  | nil =>
    unfold splitLoop at h
    split at h
    · cases h
    · rename_i hne
      split at h
      · cases h
      · rename_i hdots
        cases h
        refine ⟨[], [], by simp, List.nil_prefix, ?_⟩
        simpa using ⟨isName_of_checks hne hdots, hcur⟩
  | cons c rest ih =>
    unfold splitLoop at h
    split at h
    · split at h
      · cases h
      · rename_i hne
        split at h
        · cases h
        · rename_i hdots
          have hnil : NoSeps [] := fun x hx => absurd hx List.not_mem_nil
          obtain ⟨ahead, new, rfl, -, hnew⟩ := ih hnil h
          refine ⟨[], ahead :: new, by simp, List.nil_prefix, ?_⟩
          simp only [List.append_nil]
          exact List.forall_mem_cons.mpr ⟨⟨isName_of_checks hne hdots, hcur⟩, hnew⟩
    · rename_i hsep
      have hc : c ≠ '/' ∧ c ≠ '\\' := by simpa using hsep
      have hcur' : NoSeps (cur ++ [c]) := by
        intro x hx
        rcases List.mem_append.mp hx with hx | hx
        · exact hcur x hx
        · rwa [List.mem_singleton.mp hx]
      obtain ⟨ahead, new, rfl, hahead, hnew⟩ := ih hcur' h
      have hassoc : cur ++ [c] ++ ahead = cur ++ c :: ahead := by simp
      rw [hassoc] at hnew ⊢
      exact ⟨c :: ahead, new, rfl, List.cons_prefix_cons.mpr ⟨rfl, hahead⟩, hnew⟩

theorem hasDrive_of_isPrefix {xs ys : List Char} (h : xs <+: ys) (hdrive : hasDrive xs = true) :
    hasDrive ys = true := by
  obtain ⟨zs, rfl⟩ := h
  match xs, hdrive with
  | c :: d :: rest, hdrive => exact hdrive

/-- The parts of an accepted relative path are names without separators, and the first has
    no drive. -/
theorem splitRelpathOk_parts {rel : List Char} {parts : List (List Char)}
    (h : splitRelpathOk rel = some parts) :
    ∃ first more, parts = first :: more ∧ hasDrive first = false ∧
      ∀ part ∈ parts, IsName part ∧ NoSeps part := by
  unfold splitRelpathOk at h
  split at h
  · cases h
  · split at h
    · cases h
    · split at h
      · cases h
      · split at h
        · cases h
        · rename_i hdrive
          obtain ⟨ahead, new, rfl, hahead, hparts⟩ :=
            splitLoop_parts (fun x hx => absurd hx List.not_mem_nil) h
          refine ⟨ahead, new, rfl, ?_, hparts⟩
          rw [← Bool.not_eq_true]
          exact fun hfirst => hdrive (hasDrive_of_isPrefix hahead hfirst)

/-! ## Inside the plugin's directory -/

/-- Nothing, or a path whose components are the root's, the plugin id and at least one name. -/
def Inside (pl : Platform) (root id : List Char) (res : Option FsPath) : Prop :=
  res = none ∨ ∃ names, names ≠ [] ∧ (∀ name ∈ names, IsName name) ∧
    res = some ((FsPath.ofText pl root).extend (id :: names))

def Rejected (root id rel : List Char) : Prop :=
  root = [] ∨ pluginIdOk id = false ∨ splitRelpathOk rel = none

/-- No part brings another drive than the root's, and what is left of each part is a name. -/
structure StaysOnDrive (pl : Platform) (root : FsPath) (parts : List (List Char)) : Prop where
  anchored : root.Anchored pl
  drive : ∀ part ∈ parts, ¬ Foreign pl root.rootName part
  dots : ∀ part ∈ parts, nameOf pl part ≠ ['.'] ∧ nameOf pl part ≠ ['.', '.']
  last : ∀ part ∈ parts.getLast?, nameOf pl part ≠ []

/-- The root is relative to a drive (`X:` without a separator behind it). Some part leaves
    the drive; a later one returns to it, and from there on the parts spell the root, the
    plugin id and names once more. -/
def ReturnsToRoot (pl : Platform) (root : FsPath) (id : List Char)
    (parts : List (List Char)) : Prop :=
  root.rootDirectory = false ∧ ∃ before far between own after names,
    parts = before ++ far :: (between ++ own :: after) ∧
    Foreign pl root.rootName far ∧
    (∀ part ∈ between, driveOf pl part = []) ∧
    (driveOf pl own ≠ [] ∧ driveOf pl own = root.rootName) ∧
    (∀ part ∈ after, ¬ Foreign pl root.rootName part) ∧
    (∀ part ∈ (own :: after).getLast?, nameOf pl part ≠ []) ∧
    names ≠ [] ∧ (∀ name ∈ names, IsName name) ∧
    ((own :: after).map (nameOf pl)).filter (· ≠ []) = root.dirNames ++ id :: names

theorem inside_some_iff {pl : Platform} {root id : List Char} {q : FsPath} :
    Inside pl root id (some q) ↔
      q.rootName = (FsPath.ofText pl root).rootName ∧
      q.rootDirectory = (FsPath.ofText pl root).rootDirectory ∧ q.hasFilename = true ∧
      ∃ names, names ≠ [] ∧ (∀ name ∈ names, IsName name) ∧
        q.dirNames = (FsPath.ofText pl root).dirNames ++ id :: names := by
  constructor
  · rintro (hnone | ⟨names, hne, hnames, hq⟩)
    · cases hnone
    · cases hq
      have hfile : ((FsPath.ofText pl root).extend (id :: names)).hasFilename = true :=
        FsPath.hasFilename_of_names ((FsPath.ofText pl root).dirNames ++ [id]) names
          (by simp [FsPath.extend]) hne fun name hname => (hnames name hname).1
      exact ⟨rfl, rfl, hfile, names, hne, hnames, FsPath.dirNames_of_hasFilename hfile⟩
  · rintro ⟨hroot, hdir, hfile, names, hne, hnames, hdirs⟩
    refine Or.inr ⟨names, hne, hnames, congrArg some ?_⟩
    rw [FsPath.dirNames_of_hasFilename hfile] at hdirs
    cases q
    simp_all [FsPath.extend]

section Resolve

variable {pl : Platform} {id : List Char} {parts : List (List Char)}

theorem hasDrive_id (hid : pluginIdOk id = true) : hasDrive id = false := by
  unfold hasDrive
  split
  · rename_i c d rest
    have hall : (c :: d :: rest).all isIdChar = true := (Bool.and_eq_true _ _ ▸ hid).2
    have hd : isIdChar d = true := by
      simp only [List.all_cons, Bool.and_eq_true] at hall
      exact hall.2.1
    have hcolon : d ≠ ':' := by
      rintro rfl
      exact absurd hd (by decide)
    simp [hcolon]
  · rfl

theorem noSeps_id (hid : pluginIdOk id = true) : NoSeps id := by
  intro c hc
  have hall : id.all isIdChar = true := (Bool.and_eq_true _ _ ▸ hid).2
  have hchar := List.all_eq_true.mp hall c hc
  constructor
  · rintro rfl
    exact absurd hchar (by decide)
  · rintro rfl
    exact absurd hchar (by decide)

theorem id_ne_nil (hid : pluginIdOk id = true) : id ≠ [] := by
  rintro rfl
  exact absurd hid (by decide)

/-- A component without a drive is its own name. -/
theorem rootNameLength_of_no_drive {seg : List Char} (hsep : NoSeps seg)
    (hdrive : hasDrive seg = false) : rootNameLength pl seg = 0 := by
  rcases rootNameLength_component (hsep.isSep pl) with hlen | ⟨-, htrue, -⟩
  · exact hlen
  · rw [hdrive] at htrue
    cases htrue

theorem driveOf_of_no_drive {seg : List Char} (hsep : NoSeps seg)
    (hdrive : hasDrive seg = false) : driveOf pl seg = [] := by
  unfold driveOf
  rw [rootNameLength_of_no_drive hsep hdrive, List.take_zero]

theorem nameOf_of_no_drive {seg : List Char} (hsep : NoSeps seg)
    (hdrive : hasDrive seg = false) : nameOf pl seg = seg := by
  unfold nameOf
  rw [rootNameLength_of_no_drive hsep hdrive, List.drop_zero]

theorem getLast?_name_iff (hne : parts ≠ []) :
    (∀ part ∈ parts.getLast?, nameOf pl part ≠ []) ↔ nameOf pl (parts.getLast hne) ≠ [] := by
  rw [List.getLast?_eq_some_getLast hne]
  simp

/-- The directory of the plugin. -/
theorem join_id (root : FsPath) (hid : pluginIdOk id = true) :
    (root.join pl id).rootName = root.rootName ∧ (root.join pl id).Anchored pl ∧
    ((root.join pl id).rootDirectory = root.rootDirectory ↔ root.Anchored pl) ∧
    (root.join pl id).dirNames = root.dirNames ++ [id] := by
  have hsep := (noSeps_id hid).isSep pl
  have hdrive : driveOf pl id = [] := driveOf_of_no_drive (noSeps_id hid) (hasDrive_id hid)
  have hstays : ¬ Foreign pl root.rootName id := fun hfar => hfar.1 hdrive
  refine ⟨?_, anchored_join hsep hstays, rootDirectory_join hsep hstays, ?_⟩
  · rw [rootName_join root hsep, if_pos hdrive]
  · rw [dirNames_join_of_stays hsep hstays, nameOf_of_no_drive (noSeps_id hid) (hasDrive_id hid)]
    simp [id_ne_nil hid]

/-- Where every part stays on the root's drive. -/
theorem inside_iff_of_stays {root : List Char} (hid : pluginIdOk id = true)
    {first : List Char} {more : List (List Char)} (hfirst : hasDrive first = false)
    (hparts : ∀ part ∈ first :: more, IsName part ∧ NoSeps part)
    (hstays : ∀ part ∈ first :: more, ¬ Foreign pl (FsPath.ofText pl root).rootName part) :
    Inside pl root id
        (some ((first :: more).foldl (FsPath.join pl) ((FsPath.ofText pl root).join pl id))) ↔
      StaysOnDrive pl (FsPath.ofText pl root) (first :: more) := by
  obtain ⟨hroot, hanch, hdir, hnames⟩ := @join_id pl id (FsPath.ofText pl root) hid
  have hsep : ∀ part ∈ first :: more, ∀ c ∈ part, pl.isSep c = false :=
    fun part hpart => (hparts part hpart).2.isSep pl
  obtain ⟨hroot', hdir', hnames'⟩ :=
    joinAll_of_stays hsep (by rw [hroot]; exact hstays) hanch
  have hfile := hasFilename_joinAll ((FsPath.ofText pl root).join pl id)
    (List.cons_ne_nil first more) hsep
  rw [inside_some_iff, hroot', hdir', hnames', hfile, hroot, hdir, hnames,
    ← getLast?_name_iff (List.cons_ne_nil first more)]
  constructor
  · rintro ⟨-, hroot, hlast, names, -, hgood, heq⟩
    rw [List.append_assoc] at heq
    have heq' : ((first :: more).map (nameOf pl)).filter (· ≠ []) = names := by
      have := List.append_cancel_left heq
      exact (List.cons.inj this).2
    refine ⟨hroot, hstays, ?_, hlast⟩
    intro part hpart
    by_cases hname : nameOf pl part = []
    · simp [hname]
    · have hmem : nameOf pl part ∈ names := by
        rw [← heq']
        exact List.mem_filter.mpr ⟨List.mem_map_of_mem hpart, by simpa using hname⟩
      exact (hgood _ hmem).2
  · rintro ⟨hroot, -, hdots, hlast⟩
    refine ⟨rfl, hroot, hlast, ((first :: more).map (nameOf pl)).filter (· ≠ []), ?_, ?_, ?_⟩
    · have hname : nameOf pl first = first :=
        nameOf_of_no_drive (hparts first List.mem_cons_self).2 hfirst
      have hne := (hparts first List.mem_cons_self).1.1
      simp [hname, hne]
    · intro name hname
      obtain ⟨hmem, hne⟩ := List.mem_filter.mp hname
      obtain ⟨part, hpart, rfl⟩ := List.mem_map.mp hmem
      exact ⟨by simpa using hne, hdots part hpart⟩
    · rw [List.append_assoc]
      rfl

theorem rootName_join_of_drive (p : FsPath) {far : List Char} (hsep : NoSeps far)
    (hdrive : driveOf pl far ≠ []) : (p.join pl far).rootName = driveOf pl far := by
  rw [rootName_join p (hsep.isSep pl), if_neg hdrive]

/-- A path on another drive, joined with parts of which `own` is the first with a drive:
    only `own` and what follows it is left. -/
theorem joinAll_of_return {p : FsPath} {between after : List (List Char)} {own : List Char}
    (hsep : ∀ part ∈ between ++ own :: after, NoSeps part)
    (hbetween : ∀ part ∈ between, driveOf pl part = []) (hown : driveOf pl own ≠ [])
    (hroot : p.rootName ≠ driveOf pl own)
    (hafter : ∀ part ∈ after, ¬ Foreign pl (driveOf pl own) part) :
    ((between ++ own :: after).foldl (FsPath.join pl) p).rootName = driveOf pl own ∧
    ((between ++ own :: after).foldl (FsPath.join pl) p).rootDirectory = false ∧
    ((between ++ own :: after).foldl (FsPath.join pl) p).dirNames =
      ((own :: after).map (nameOf pl)).filter (· ≠ []) ∧
    (((between ++ own :: after).foldl (FsPath.join pl) p).hasFilename = true ↔
      ∀ part ∈ (own :: after).getLast?, nameOf pl part ≠ []) := by
  have hsepBetween : ∀ part ∈ between, ∀ c ∈ part, pl.isSep c = false :=
    fun part hpart => (hsep part (List.mem_append_left _ hpart)).isSep pl
  obtain ⟨hsepOwn, hsepAfter⟩ := List.forall_mem_cons.mp fun part hpart =>
    (hsep part (List.mem_append_right between hpart)).isSep pl
  have hfar : Foreign pl (between.foldl (FsPath.join pl) p).rootName own := by
    rw [rootName_joinAll p hsepBetween hbetween]
    exact ⟨hown, hroot.symm⟩
  obtain ⟨hpl, hdrive, -⟩ := driveOf_hasDrive hsepOwn hown
  have hfile := hasFilename_joinAll (between.foldl (FsPath.join pl) p)
    (List.cons_ne_nil own after) (List.forall_mem_cons.mpr ⟨hsepOwn, hsepAfter⟩)
  rw [← List.foldl_append, ← getLast?_name_iff] at hfile
  have hjoin : (between ++ own :: after).foldl (FsPath.join pl) p =
      after.foldl (FsPath.join pl) ⟨driveOf pl own, false, [nameOf pl own].filter (· ≠ [])⟩ := by
    rw [List.foldl_append, List.foldl_cons, join_of_foreign hsepOwn hfar]
  obtain ⟨h1, h2, h3⟩ := joinAll_of_stays
    (p := ⟨driveOf pl own, false, [nameOf pl own].filter (· ≠ [])⟩) hsepAfter hafter (by
      subst hpl
      simp [FsPath.Anchored, FsPath.isAbsolute, hdrive])
  have hdirs : (FsPath.mk (driveOf pl own) false ([nameOf pl own].filter (· ≠ []))).dirNames =
      [nameOf pl own].filter (· ≠ []) := by
    by_cases hname : nameOf pl own = [] <;> simp [FsPath.dirNames, hname]
  refine ⟨?_, ?_, ?_, hfile⟩
  · rw [hjoin, h1]
  · rw [hjoin, h2]
  · rw [hjoin, h3, hdirs, ← List.filter_append]
    rfl

/-- Where some part leaves the root's drive. -/
theorem inside_iff_of_foreign {root : List Char} {p : FsPath}
    (hparts : ∀ part ∈ parts, NoSeps part)
    (hleaves : ¬ ∀ part ∈ parts, ¬ Foreign pl (FsPath.ofText pl root).rootName part) :
    Inside pl root id (some (parts.foldl (FsPath.join pl) p)) ↔
      ReturnsToRoot pl (FsPath.ofText pl root) id parts := by
  constructor
  · intro hinside
    obtain ⟨hroot, hdir, hfile, names, hne, hnames, hdirs⟩ := inside_some_iff.mp hinside
    obtain ⟨before, far, rest, rfl, hfar, hrest⟩ := exists_last_foreign hleaves
    have hsep : ∀ part ∈ rest, NoSeps part :=
      fun part hpart => hparts part (List.mem_append_right _ (List.mem_cons_of_mem far hpart))
    have hleft : ((before.foldl (FsPath.join pl) p).join pl far).rootName = driveOf pl far :=
      rootName_join_of_drive _ (hparts far (List.mem_append_right _ List.mem_cons_self)) hfar.1
    rw [List.foldl_append, List.foldl_cons] at hroot hdir hfile hdirs
    cases hfind : rest.find? fun part => driveOf pl part ≠ [] with
    | none =>
      -- no later drive: the path stays on the drive of `far`
      have hnone : ∀ part ∈ rest, driveOf pl part = [] := by
        simpa using List.find?_eq_none.mp hfind
      rw [rootName_joinAll _ (fun part hpart => (hsep part hpart).isSep pl) hnone, hleft] at hroot
      exact absurd hroot hfar.2
    | some own =>
      obtain ⟨hown, between, after, rfl, hbetween⟩ := List.find?_eq_some_iff_append.mp hfind
      have hdrive : driveOf pl own ≠ [] := by simpa using hown
      have hback : driveOf pl own = (FsPath.ofText pl root).rootName := by
        by_contra hneq
        exact hrest own (List.mem_append_right _ List.mem_cons_self) ⟨hdrive, hneq⟩
      have hbetween' : ∀ part ∈ between, driveOf pl part = [] := by simpa using hbetween
      have hafter : ∀ part ∈ after, ¬ Foreign pl (FsPath.ofText pl root).rootName part :=
        fun part hpart => hrest part (List.mem_append_right _ (List.mem_cons_of_mem own hpart))
      obtain ⟨-, hdir', hdirs', hfile'⟩ := joinAll_of_return hsep hbetween' hdrive
        (by rw [hleft, hback]; exact hfar.2) (by rw [hback]; exact hafter)
      rw [hdir'] at hdir
      rw [hdirs'] at hdirs
      exact ⟨hdir.symm, before, far, between, own, after, names, rfl, hfar, hbetween',
        ⟨hdrive, hback⟩, hafter, hfile'.mp hfile, hne, hnames, hdirs⟩
  · rintro ⟨hdir, before, far, between, own, after, names, rfl, hfar, hbetween, ⟨hdrive, hback⟩,
      hafter, hlast, hne, hnames, hdirs⟩
    have hsep : ∀ part ∈ between ++ own :: after, NoSeps part :=
      fun part hpart => hparts part (List.mem_append_right _ (List.mem_cons_of_mem far hpart))
    have hleft : ((before.foldl (FsPath.join pl) p).join pl far).rootName = driveOf pl far :=
      rootName_join_of_drive _ (hparts far (List.mem_append_right _ List.mem_cons_self)) hfar.1
    obtain ⟨hroot', hdir', hdirs', hfile'⟩ := joinAll_of_return hsep hbetween hdrive
      (by rw [hleft, hback]; exact hfar.2) (by rw [hback]; exact hafter)
    rw [List.foldl_append, List.foldl_cons, inside_some_iff, hroot', hdir', hdirs']
    exact ⟨hback, hdir.symm, hfile'.mpr hlast, names, hne, hnames, hdirs⟩

end Resolve

theorem resolvePluginPath_of_rejected {pl : Platform} {root id rel : List Char}
    (h : Rejected root id rel) : resolvePluginPath pl root id rel = none := by
  unfold resolvePluginPath
  rcases h with rfl | hid | hsplit
  · rfl
  · rw [if_pos (by simp [hid])]
  · rw [hsplit]
    split <;> rfl

theorem resolvePluginPath_of_accepted {pl : Platform} {root id rel : List Char}
    {parts : List (List Char)} (hroot : root ≠ []) (hid : pluginIdOk id = true)
    (hsplit : splitRelpathOk rel = some parts) :
    resolvePluginPath pl root id rel =
      some (parts.foldl (FsPath.join pl) ((FsPath.ofText pl root).join pl id)) := by
  unfold resolvePluginPath
  rw [if_neg (by simp [hroot, hid]), hsplit]

/-- On POSIX no part has a drive. -/
theorem staysOnDrive_posix {root : FsPath} {parts : List (List Char)}
    (hparts : ∀ part ∈ parts, IsName part) : StaysOnDrive .posix root parts :=
  ⟨fun habs => habs, fun _ _ hfar => hfar.1 List.take_zero,
    fun part hpart => (hparts part hpart).2,
    fun part hpart => (hparts part (List.mem_of_getLast? hpart)).1⟩

/-- The resolved path is inside the plugin's directory exactly on POSIX, for rejected input,
    where all parts stay on the root's drive, and where they return to it and spell the
    plugin's directory again. -/
theorem resolve_inside_iff (pl : Platform) (root id rel : List Char) :
    Inside pl root id (resolvePluginPath pl root id rel) ↔
      pl = .posix ∨ Rejected root id rel ∨ ∃ parts, splitRelpathOk rel = some parts ∧
        (StaysOnDrive pl (FsPath.ofText pl root) parts ∨
          ReturnsToRoot pl (FsPath.ofText pl root) id parts) := by
  by_cases hrej : Rejected root id rel
  · rw [resolvePluginPath_of_rejected hrej]
    exact ⟨fun _ => Or.inr (Or.inl hrej), fun _ => Or.inl rfl⟩
  · obtain ⟨hroot, hid, hsplit⟩ : root ≠ [] ∧ pluginIdOk id = true ∧ splitRelpathOk rel ≠ none := by
      simpa [Rejected, not_or] using hrej
    obtain ⟨parts, hsplit⟩ := Option.ne_none_iff_exists'.mp hsplit
    obtain ⟨first, more, rfl, hfirst, hparts⟩ := splitRelpathOk_parts hsplit
    rw [resolvePluginPath_of_accepted hroot hid hsplit]
    have hcore : Inside pl root id (some ((first :: more).foldl (FsPath.join pl)
          ((FsPath.ofText pl root).join pl id))) ↔
        StaysOnDrive pl (FsPath.ofText pl root) (first :: more) ∨
          ReturnsToRoot pl (FsPath.ofText pl root) id (first :: more) := by
      by_cases hstays :
          ∀ part ∈ first :: more, ¬ Foreign pl (FsPath.ofText pl root).rootName part
      · rw [inside_iff_of_stays hid hfirst hparts hstays]
        refine ⟨Or.inl, fun h => h.resolve_right ?_⟩
        rintro ⟨-, before, far, between, own, after, names, heq, hfar, -⟩
        exact hstays far (by rw [heq]; simp) hfar
      · rw [inside_iff_of_foreign (fun part hpart => (hparts part hpart).2) hstays]
        exact ⟨Or.inr, fun h => h.resolve_left fun h' => hstays h'.drive⟩
    rw [hcore]
    constructor
    · intro h
      exact Or.inr (Or.inr ⟨_, hsplit, h⟩)
    · rintro (rfl | h | ⟨parts, hparts', h⟩)
      · exact Or.inl (staysOnDrive_posix fun part hpart => (hparts part hpart).1)
      · exact absurd h hrej
      · rw [hsplit] at hparts'
        cases hparts'
        exact h

-- a root on the drive alone: the parts leave the drive, come back and spell the directory
example : resolvePluginPath .windows "C:".toList "notes".toList "a\\D:x\\C:notes\\y".toList =
    some ((FsPath.ofText .windows "C:".toList).extend ["notes".toList, "y".toList]) := by
  decide

/-- On Windows the second part of `a\D:x` replaces the path. -/
theorem drive_in_the_middle :
    resolvePluginPath .windows "C:\\data".toList "notes".toList "a\\D:x".toList =
        some ⟨"D:".toList, false, ["x".toList]⟩ ∧
      ¬ Inside .windows "C:\\data".toList "notes".toList
        (resolvePluginPath .windows "C:\\data".toList "notes".toList "a\\D:x".toList) := by
  have hpath : resolvePluginPath .windows "C:\\data".toList "notes".toList "a\\D:x".toList =
      some ⟨"D:".toList, false, ["x".toList]⟩ := by decide
  refine ⟨hpath, ?_⟩
  rw [hpath, inside_some_iff]
  rintro ⟨hroot, -⟩
  exact absurd hroot (by decide)

end TruellmEngine.Bridge
