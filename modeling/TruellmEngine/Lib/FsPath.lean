/-
  Paths as `std::filesystem::path` sees them: a root name, a root directory and names,
  with the constructor from text and `operator/=` for POSIX and for Windows.

  On Windows a text may begin with a drive (`X:`), and a component with the drive of
  another path replaces that path when it is appended. `join` appends one component (a
  text without separators). `joinAll_of_stays`: components that bring no drive of their
  own, or the drive the path has, only append their names; `exists_last_foreign` finds the
  last component that does more.
-/
import Mathlib.Data.List.Induction

namespace TruellmEngine.Lib

inductive Platform where
  | posix
  | windows
deriving DecidableEq

def Platform.isSep : Platform → Char → Bool
  | .posix, c => c == '/'
  | .windows, c => c == '/' || c == '\\'

/-- `names` ends in an empty name when the path ends in a separator. -/
structure FsPath where
  rootName : List Char
  rootDirectory : Bool
  names : List (List Char)
deriving DecidableEq

/-- A letter and a colon. -/
def hasDrive : List Char → Bool
  | c :: d :: _ => c.isAlpha && d == ':'
  | _ => false

/-- The length of a device form or of a network name (two separators and the name of a
    server) at the head of a text. -/
def networkNameLength : List Char → Nat
  | a :: '?' :: '?' :: d :: rest =>
    if Platform.windows.isSep a && Platform.windows.isSep d &&
        !rest.head?.any Platform.windows.isSep then 3
    else 0
  | a :: b :: c :: rest =>
    if Platform.windows.isSep a && Platform.windows.isSep b && !Platform.windows.isSep c then
      3 + (rest.takeWhile fun x => !Platform.windows.isSep x).length
    else 0
  | _ => 0

/-- How much of a text is its root name. -/
def rootNameLength (pl : Platform) (text : List Char) : Nat :=
  match pl with
  | .posix => 0
  | .windows => if hasDrive text then 2 else networkNameLength text

namespace FsPath

/-- `path(text)` -/
def ofText (pl : Platform) (text : List Char) : FsPath :=
  let rest := text.drop (rootNameLength pl text)
  let relative := rest.dropWhile pl.isSep
  { rootName := text.take (rootNameLength pl text)
    rootDirectory := rest.head?.any pl.isSep
    names := (relative.splitOnP pl.isSep).filter (· ≠ []) ++
      if relative.getLast?.any pl.isSep then [[]] else [] }

def isAbsolute (pl : Platform) (p : FsPath) : Bool :=
  match pl with
  | .posix => p.rootDirectory
  | .windows => if hasDrive p.rootName then p.rootDirectory else p.rootName ≠ []

def hasFilename (p : FsPath) : Bool := p.names.getLast?.any (· ≠ [])

/-- The names without the empty one that stands for a separator at the end. -/
def dirNames (p : FsPath) : List (List Char) :=
  if p.names.getLast? = some [] then p.names.dropLast else p.names

/-- `p /= q` -/
def append (pl : Platform) (p q : FsPath) : FsPath :=
  if q.isAbsolute pl ∨ q.rootName ≠ [] ∧ q.rootName ≠ p.rootName then q
  else if q.rootDirectory then { q with rootName := p.rootName }
  else
    { rootName := p.rootName
      rootDirectory := p.rootDirectory || p.isAbsolute pl
      names :=
        if q.names ≠ [] then p.dirNames ++ q.names
        else if p.hasFilename then p.names ++ [[]] else p.names }

/-- The components of `p`, then the names `ns`. -/
def extend (p : FsPath) (ns : List (List Char)) : FsPath :=
  { p with names := p.dirNames ++ ns }

/-- Appending a name does not give the path a root directory it does not have. Only a root
    name that is absolute by itself, such as a bare network name, is not anchored. -/
def Anchored (pl : Platform) (p : FsPath) : Prop :=
  p.isAbsolute pl = true → p.rootDirectory = true

instance (pl : Platform) (p : FsPath) : Decidable (p.Anchored pl) :=
  inferInstanceAs (Decidable (_ → _))

end FsPath

/-! ## Appending one component -/

/-- The drive a component brings along. -/
def driveOf (pl : Platform) (seg : List Char) : List Char := seg.take (rootNameLength pl seg)

/-- What a component adds to the names. -/
def nameOf (pl : Platform) (seg : List Char) : List Char := seg.drop (rootNameLength pl seg)

/-- `p /= seg` -/
def FsPath.join (pl : Platform) (p : FsPath) (seg : List Char) : FsPath :=
  p.append pl (FsPath.ofText pl seg)

/-- The component has a drive, and not the path's. -/
def Foreign (pl : Platform) (rootName seg : List Char) : Prop :=
  driveOf pl seg ≠ [] ∧ driveOf pl seg ≠ rootName

instance (pl : Platform) (rootName seg : List Char) : Decidable (Foreign pl rootName seg) :=
  inferInstanceAs (Decidable (_ ∧ _))

section Component

variable {pl : Platform} {seg : List Char}

theorem networkNameLength_component (hsep : ∀ c ∈ seg, Platform.windows.isSep c = false) :
    networkNameLength seg = 0 := by
  unfold networkNameLength
  split
  · rename_i a d rest
    simp [hsep a List.mem_cons_self]
  · rename_i a b c rest _
    simp [hsep a List.mem_cons_self]
  · rfl

theorem rootNameLength_component (hsep : ∀ c ∈ seg, pl.isSep c = false) :
    rootNameLength pl seg = 0 ∨
      pl = .windows ∧ hasDrive seg = true ∧ rootNameLength pl seg = 2 := by
  cases pl with
  | posix => exact Or.inl rfl
  | windows =>
    by_cases hdrive : hasDrive seg = true
    · exact Or.inr ⟨rfl, hdrive, if_pos hdrive⟩
    · left
      show (if hasDrive seg = true then 2 else networkNameLength seg) = 0
      rw [if_neg hdrive, networkNameLength_component hsep]

theorem nameOf_isSep (hsep : ∀ c ∈ seg, pl.isSep c = false) :
    ∀ c ∈ nameOf pl seg, pl.isSep c = false :=
  fun c hc => hsep c (List.mem_of_mem_drop hc)

theorem driveOf_hasDrive (hsep : ∀ c ∈ seg, pl.isSep c = false) (hne : driveOf pl seg ≠ []) :
    pl = .windows ∧ hasDrive (driveOf pl seg) = true ∧ hasDrive seg = true := by
  rcases rootNameLength_component hsep with hlen | ⟨hpl, hdrive, hlen⟩
  · exact absurd (by unfold driveOf; rw [hlen, List.take_zero]) hne
  · refine ⟨hpl, ?_, hdrive⟩
    unfold driveOf
    rw [hlen]
    match seg, hdrive with
    | c :: d :: rest, hdrive => exact hdrive

theorem dropWhile_isSep {xs : List Char} (hsep : ∀ c ∈ xs, pl.isSep c = false) :
    xs.dropWhile pl.isSep = xs := by
  cases xs with
  | nil => rfl
  | cons c xs => exact List.dropWhile_cons_of_neg (by simp [hsep c List.mem_cons_self])

theorem any_head?_isSep {xs : List Char} (hsep : ∀ c ∈ xs, pl.isSep c = false) :
    xs.head?.any pl.isSep = false := by
  cases xs with
  | nil => rfl
  | cons c xs => exact hsep c List.mem_cons_self

theorem any_getLast?_isSep {xs : List Char} (hsep : ∀ c ∈ xs, pl.isSep c = false) :
    xs.getLast?.any pl.isSep = false := by
  cases hlast : xs.getLast? with
  | none => rfl
  | some c => exact hsep c (List.mem_of_getLast? hlast)

/-- The path of a text without separators. -/
theorem ofText_component (hsep : ∀ c ∈ seg, pl.isSep c = false) :
    FsPath.ofText pl seg = ⟨driveOf pl seg, false, [nameOf pl seg].filter (· ≠ [])⟩ := by
  have hname := nameOf_isSep hsep
  unfold FsPath.ofText
  dsimp only
  rw [show seg.drop (rootNameLength pl seg) = nameOf pl seg from rfl, dropWhile_isSep hname,
    any_head?_isSep hname, any_getLast?_isSep hname, List.splitOnP_eq_singleton hname]
  simp only [Bool.false_eq_true, if_false, List.append_nil]
  rfl

theorem ofText_not_absolute (hsep : ∀ c ∈ seg, pl.isSep c = false) :
    (FsPath.ofText pl seg).isAbsolute pl = false := by
  rw [ofText_component hsep]
  unfold FsPath.isAbsolute
  cases pl with
  | posix => rfl
  | windows =>
    dsimp only
    by_cases hne : driveOf .windows seg = []
    · simp [hne, hasDrive]
    · rw [(driveOf_hasDrive hsep hne).2.1]
      rfl

/-- A foreign component replaces the path. -/
theorem join_of_foreign {p : FsPath} (hsep : ∀ c ∈ seg, pl.isSep c = false)
    (hfar : Foreign pl p.rootName seg) :
    p.join pl seg = ⟨driveOf pl seg, false, [nameOf pl seg].filter (· ≠ [])⟩ := by
  unfold FsPath.join FsPath.append
  rw [if_pos, ofText_component hsep]
  right
  rw [ofText_component hsep]
  exact hfar

/-- Any other component keeps the root and appends its name. -/
theorem join_of_stays {p : FsPath} (hsep : ∀ c ∈ seg, pl.isSep c = false)
    (hstays : ¬ Foreign pl p.rootName seg) :
    p.join pl seg =
      { rootName := p.rootName
        rootDirectory := p.rootDirectory || p.isAbsolute pl
        names :=
          if nameOf pl seg ≠ [] then p.dirNames ++ [nameOf pl seg]
          else if p.hasFilename then p.names ++ [[]] else p.names } := by
  unfold FsPath.join FsPath.append
  rw [ofText_not_absolute hsep, ofText_component hsep]
  dsimp only
  rw [if_neg (by simpa [Foreign] using hstays), if_neg Bool.false_ne_true]
  by_cases hname : nameOf pl seg = [] <;> simp [hname]

/-- After a join the path is on the component's drive, if it has one. -/
theorem rootName_join (p : FsPath) (hsep : ∀ c ∈ seg, pl.isSep c = false) :
    (p.join pl seg).rootName =
      if driveOf pl seg = [] then p.rootName else driveOf pl seg := by
  by_cases hfar : Foreign pl p.rootName seg
  · rw [join_of_foreign hsep hfar, if_neg hfar.1]
  · rw [join_of_stays hsep hfar]
    dsimp only
    by_cases hnone : driveOf pl seg = []
    · rw [if_pos hnone]
    · rw [if_neg hnone]
      by_contra hroot
      exact hfar ⟨hnone, fun heq => hroot heq.symm⟩

end Component

/-! ## Names and directories -/

namespace FsPath

theorem dirNames_concat (rn : List Char) (rd : Bool) (ns : List (List Char)) (n : List Char) :
    (FsPath.mk rn rd (ns ++ [n])).dirNames = ns ++ [n].filter (· ≠ []) := by
  unfold dirNames
  rw [List.getLast?_concat, List.dropLast_concat]
  by_cases hn : n = [] <;> simp [hn]

theorem dirNames_of_hasFilename {p : FsPath} (h : p.hasFilename = true) :
    p.dirNames = p.names := by
  unfold dirNames
  rw [if_neg]
  intro hlast
  unfold hasFilename at h
  rw [hlast] at h
  simp at h

theorem hasFilename_of_names {p : FsPath} (ns ms : List (List Char)) (h : p.names = ns ++ ms)
    (hne : ms ≠ []) (hgood : ∀ m ∈ ms, m ≠ []) : p.hasFilename = true := by
  unfold hasFilename
  rw [h, List.getLast?_append, List.getLast?_eq_some_getLast hne]
  simpa using hgood _ (List.getLast_mem hne)

end FsPath

section Joins

variable {pl : Platform} {seg : List Char}

theorem dirNames_join_of_stays {p : FsPath} (hsep : ∀ c ∈ seg, pl.isSep c = false)
    (hstays : ¬ Foreign pl p.rootName seg) :
    (p.join pl seg).dirNames = p.dirNames ++ [nameOf pl seg].filter (· ≠ []) := by
  rw [join_of_stays hsep hstays]
  by_cases hname : nameOf pl seg = []
  · rw [if_neg (by simpa using hname)]
    by_cases hfile : p.hasFilename = true
    · rw [if_pos hfile, FsPath.dirNames_concat, hname, FsPath.dirNames_of_hasFilename hfile]
    · rw [if_neg hfile, hname]
      simp [FsPath.dirNames]
  · rw [if_pos hname, FsPath.dirNames_concat]

/-- After a join the path ends in a name exactly when the component has one. -/
theorem hasFilename_join (p : FsPath) (hsep : ∀ c ∈ seg, pl.isSep c = false) :
    (p.join pl seg).hasFilename = true ↔ nameOf pl seg ≠ [] := by
  by_cases hfar : Foreign pl p.rootName seg
  · rw [join_of_foreign hsep hfar]
    by_cases hname : nameOf pl seg = [] <;> simp [FsPath.hasFilename, hname]
  · rw [join_of_stays hsep hfar]
    by_cases hname : nameOf pl seg = []
    · by_cases hfile : p.hasFilename = true
      · rw [if_neg (by simpa using hname), if_pos hfile]
        simp [FsPath.hasFilename, hname]
      · rw [if_neg (by simpa using hname), if_neg hfile]
        exact ⟨fun h => absurd h hfile, fun h => absurd hname h⟩
    · simp [FsPath.hasFilename, hname]

theorem anchored_join {p : FsPath} (hsep : ∀ c ∈ seg, pl.isSep c = false)
    (hstays : ¬ Foreign pl p.rootName seg) : (p.join pl seg).Anchored pl := by
  rw [join_of_stays hsep hstays]
  unfold FsPath.Anchored FsPath.isAbsolute
  cases pl with
  | posix => exact id
  | windows =>
    dsimp only
    by_cases hdrive : hasDrive p.rootName = true
    · rw [if_pos hdrive, if_pos hdrive]
      exact id
    · rw [if_neg hdrive, if_neg hdrive]
      intro habs
      rw [habs, Bool.or_true]

theorem rootDirectory_join {p : FsPath} (hsep : ∀ c ∈ seg, pl.isSep c = false)
    (hstays : ¬ Foreign pl p.rootName seg) :
    (p.join pl seg).rootDirectory = p.rootDirectory ↔ p.Anchored pl := by
  rw [join_of_stays hsep hstays]
  unfold FsPath.Anchored
  cases p.rootDirectory <;> cases p.isAbsolute pl <;> simp

/-- Components that bring no drive of their own, or the one the path has, keep the path's
    root and append their names. -/
theorem joinAll_of_stays {segs : List (List Char)} {p : FsPath}
    (hsep : ∀ seg ∈ segs, ∀ c ∈ seg, pl.isSep c = false)
    (hstays : ∀ seg ∈ segs, ¬ Foreign pl p.rootName seg) (hanch : p.Anchored pl) :
    (segs.foldl (FsPath.join pl) p).rootName = p.rootName ∧
    (segs.foldl (FsPath.join pl) p).rootDirectory = p.rootDirectory ∧
    (segs.foldl (FsPath.join pl) p).dirNames =
      p.dirNames ++ (segs.map (nameOf pl)).filter (· ≠ []) := by
  induction segs generalizing p with
  | nil => simp
  | cons seg segs ih =>
    obtain ⟨hsepHead, hsepTail⟩ := List.forall_mem_cons.mp hsep
    obtain ⟨hhead, htail⟩ := List.forall_mem_cons.mp hstays
    have hroot : (p.join pl seg).rootName = p.rootName := by rw [join_of_stays hsepHead hhead]
    have hdir := (rootDirectory_join hsepHead hhead).mpr hanch
    obtain ⟨h1, h2, h3⟩ := ih hsepTail (by rw [hroot]; exact htail) (anchored_join hsepHead hhead)
    refine ⟨h1.trans hroot, h2.trans hdir, ?_⟩
    rw [List.foldl_cons, h3, dirNames_join_of_stays hsepHead hhead, List.append_assoc,
      ← List.filter_append]
    rfl

theorem rootName_joinAll {segs : List (List Char)} (p : FsPath)
    (hsep : ∀ seg ∈ segs, ∀ c ∈ seg, pl.isSep c = false)
    (hnone : ∀ seg ∈ segs, driveOf pl seg = []) :
    (segs.foldl (FsPath.join pl) p).rootName = p.rootName := by
  induction segs generalizing p with
  | nil => rfl
  | cons seg segs ih =>
    obtain ⟨hsepHead, hsepTail⟩ := List.forall_mem_cons.mp hsep
    obtain ⟨hhead, htail⟩ := List.forall_mem_cons.mp hnone
    rw [List.foldl_cons, ih _ hsepTail htail, rootName_join p hsepHead, if_pos hhead]

theorem hasFilename_joinAll {segs : List (List Char)} (p : FsPath) (hne : segs ≠ [])
    (hsep : ∀ seg ∈ segs, ∀ c ∈ seg, pl.isSep c = false) :
    (segs.foldl (FsPath.join pl) p).hasFilename = true ↔ nameOf pl (segs.getLast hne) ≠ [] := by
  have hsplit := List.dropLast_concat_getLast hne
  have hlast := hsep _ (List.getLast_mem hne)
  generalize segs.dropLast = front at hsplit
  generalize segs.getLast hne = last at hsplit hlast ⊢
  rw [← hsplit, List.foldl_append]
  exact hasFilename_join _ hlast

/-- The last foreign component of a list that has one. -/
theorem exists_last_foreign {rn : List Char} {segs : List (List Char)}
    (h : ¬ ∀ seg ∈ segs, ¬ Foreign pl rn seg) :
    ∃ before far after, segs = before ++ far :: after ∧ Foreign pl rn far ∧
      ∀ seg ∈ after, ¬ Foreign pl rn seg := by
  induction segs using List.reverseRecOn with
  | nil => exact absurd (fun seg hseg => absurd hseg List.not_mem_nil) h
  | append_singleton segs seg ih =>
    by_cases hseg : Foreign pl rn seg
    · exact ⟨segs, seg, [], rfl, hseg, fun s hs => absurd hs List.not_mem_nil⟩
    · obtain ⟨before, far, after, rfl, hfar, hafter⟩ := ih (by
        intro hall
        refine h fun s hs => ?_
        rcases List.mem_append.mp hs with hs | hs
        · exact hall s hs
        · rwa [List.mem_singleton.mp hs])
      refine ⟨before, far, after ++ [seg], by simp, hfar, ?_⟩
      intro s hs
      rcases List.mem_append.mp hs with hs | hs
      · exact hafter s hs
      · rwa [List.mem_singleton.mp hs]

end Joins

end TruellmEngine.Lib
