/-
  The loop of `resolve_secrets`, and what it is for: one substitution from left to right.

  `Scanned` reads a text as pieces, without an environment: references, and text that stays.
  `resolve_secrets_iff`: a text has one reading, and in each environment the loop ends, with
  each reference replaced by the value of its variable, exactly where `getenv` finds nothing for
  the names that no variable can have. It sees a name with a `NUL` up to there, and a name with
  a `=` may be the start of the entry of a variable (`glibc`).
-/
import TruellmEngine.Config.Secrets
import TruellmEngine.Lib.Find
import TruellmEngine.Lib.Run

namespace TruellmEngine.Config

open Lib

/-! ## The loop -/

/-- The variables of the loop; `stopped` is behind a `break`. -/
structure Resolving where
  pos : Nat := 0
  result : List Char := []
  stopped : Bool := false

namespace Resolving

/-- A turn of the loop, on a text. -/
def step (env : String → Option String) (value : List Char) (s : Resolving) (_ : Unit) :
    Option Resolving :=
  if s.stopped || value.length ≤ s.pos then none
  else
    match findFrom secretPrefix value s.pos with
    | none => some { s with result := s.result ++ value.drop s.pos, stopped := true }
    | some start =>
      let result := s.result ++ (value.drop s.pos).take (start - s.pos)
      let nameStart := start + secretPrefix.length
      match findFrom ['\x7d'] value nameStart with
      | none => some { s with result := result ++ value.drop start, stopped := true }
      | some stop =>
        let varName := (value.drop nameStart).take (stop - nameStart)
        some { s with pos := stop + 1, result := result ++ secretValue env varName }

/-- A turn, case by case. -/
inductive Steps (env : String → Option String) (value : List Char) (s : Resolving) :
    Resolving → Prop where
  | rest (hstopped : s.stopped = false) (hpos : s.pos < value.length)
    (hnone : NoneBegins secretPrefix (value.drop s.pos) []) :
    Steps env value s { s with result := s.result ++ value.drop s.pos, stopped := true }
  /-- The last reference has no end. -/
  | unterminated {text after : List Char} (hstopped : s.stopped = false)
    (hpos : s.pos < value.length) (hvalue : value.drop s.pos = text ++ (secretPrefix ++ after))
    (hnone : NoneBegins secretPrefix text (secretPrefix ++ after)) (hend : '\x7d' ∉ after) :
    Steps env value s { s with result := s.result ++ value.drop s.pos, stopped := true }
  | reference {text name rest : List Char} {pos : Nat} (hstopped : s.stopped = false)
    (hpos : s.pos < value.length) (hpast : s.pos < pos)
    (hvalue : value.drop s.pos = text ++ (secretPrefix ++ (name ++ '\x7d' :: rest)))
    (hnone : NoneBegins secretPrefix text (secretPrefix ++ (name ++ '\x7d' :: rest)))
    (hname : '\x7d' ∉ name) (hrest : value.drop pos = rest) :
    Steps env value s { s with
      pos := pos
      result := s.result ++ (text ++ secretValue env name) }

variable {env : String → Option String} {value : List Char} {s t : Resolving}

theorem step_cases (h : s.step env value () = some t) : Steps env value s t := by
  unfold step at h
  split at h
  · cases h
  rename_i hgoes
  obtain ⟨hstopped, hpos⟩ : s.stopped = false ∧ s.pos < value.length := by
    simpa using hgoes
  split at h
  · rename_i hfind
    cases h
    exact .rest hstopped hpos (findFrom_eq_none hfind)
  rename_i start hfind
  obtain ⟨text, after, hvalue, rfl, hnone⟩ := findFrom_eq_some hfind
  have htext : (value.drop s.pos).take (s.pos + text.length - s.pos) = text := by
    rw [hvalue, Nat.add_sub_cancel_left, List.take_left]
  have hstart : value.drop (s.pos + text.length) = secretPrefix ++ after := by
    rw [← List.drop_drop, hvalue, List.drop_left]
  have hafter : value.drop (s.pos + text.length + secretPrefix.length) = after := by
    rw [← List.drop_drop, hstart, List.drop_left]
  dsimp only at h
  split at h
  · rename_i hfind'
    cases h
    have hend := findFrom_eq_none hfind'
    rw [hafter] at hend
    rw [htext, hstart, List.append_assoc, ← hvalue]
    exact .unterminated hstopped hpos hvalue hnone hend.not_mem
  · rename_i stop hfind'
    obtain ⟨name, rest, hname, rfl, hend⟩ := findFrom_eq_some hfind'
    cases h
    rw [hafter] at hname
    rw [htext, hafter, Nat.add_sub_cancel_left, hname, List.take_left, List.append_assoc]
    rw [hname] at hvalue hnone hafter
    refine .reference hstopped hpos ?_ hvalue hnone hend.not_mem ?_
    · omega
    · rw [Nat.add_assoc, ← List.drop_drop, hafter, ← List.drop_drop, List.drop_left]
      rfl

/-- What a turn makes less. -/
def rank (value : List Char) (s : Resolving) : Nat :=
  if s.stopped then 0 else value.length + 1 - s.pos

theorem step_rank (h : s.step env value () = some t) : t.rank value < s.rank value := by
  unfold rank
  cases step_cases h with
  | rest hstopped hpos hnone =>
    rw [if_pos rfl, hstopped, if_neg Bool.false_ne_true]
    omega
  | unterminated hstopped hpos hvalue hnone hend =>
    rw [if_pos rfl, hstopped, if_neg Bool.false_ne_true]
    omega
  | reference hstopped hpos hpast hvalue hnone hname hrest =>
    rw [hstopped, if_neg Bool.false_ne_true, if_neg Bool.false_ne_true]
    dsimp only
    omega

/-- What the loop makes of a state. -/
def outcome (env : String → Option String) (value : List Char) (s : Resolving) : List Char :=
  if s.stopped then s.result else s.result ++ resolveText env (value.drop s.pos)

theorem resolveText_noneBegins {text rest : List Char} (h : NoneBegins secretPrefix text rest) :
    resolveText env (text ++ rest) = text ++ resolveText env rest := by
  induction text with
  | nil => rfl
  | cons c text ih =>
    rw [List.cons_append, resolveText_cons env h.1, ih h.2, List.cons_append]

/-- A turn keeps the outcome. -/
theorem step_outcome (h : s.step env value () = some t) :
    t.outcome env value = s.outcome env value := by
  unfold outcome
  cases step_cases h with
  | rest hstopped hpos hnone =>
    have hplain : resolveText env (value.drop s.pos ++ []) = _ := resolveText_noneBegins hnone
    rw [List.append_nil] at hplain
    rw [if_pos rfl, hstopped, if_neg Bool.false_ne_true, hplain]
    exact congrArg (s.result ++ ·) (List.append_nil _).symm
  | unterminated hstopped hpos hvalue hnone hend =>
    rw [if_pos rfl, hstopped, if_neg Bool.false_ne_true, hvalue, resolveText_noneBegins hnone,
      resolveText_unterminated env hend]
  | reference hstopped hpos hpast hvalue hnone hname hrest =>
    rw [hstopped, if_neg Bool.false_ne_true, if_neg Bool.false_ne_true, hvalue, hrest,
      resolveText_noneBegins hnone, resolveText_reference env hname]
    simp only [List.append_assoc]

theorem outcome_of_ended (h : s.step env value () = none) : s.outcome env value = s.result := by
  unfold outcome
  split
  · rfl
  · rename_i hstopped
    have hend : value.length ≤ s.pos := by
      unfold step at h
      split at h
      · rename_i hends
        simpa [hstopped] using hends
      split at h
      · cases h
      dsimp only at h
      split at h
      · cases h
      · cases h
    rw [List.drop_eq_nil_of_le hend]
    exact List.append_nil _

/-- The loop ends, with the text that `resolveText` gives. -/
theorem resolve_run (env : String → Option String) (value : List Char) :
    ∃ n t, run (step env value) {} (List.replicate n ()) = some t ∧
      t.step env value () = none ∧ t.result = resolveText env value := by
  obtain ⟨n, t, hrun, hended⟩ := exists_run_ends (fun _ _ => step_rank) ({} : Resolving)
  refine ⟨n, t, hrun, hended, ?_⟩
  rw [← outcome_of_ended hended]
  exact run_keeps (fun _ _ _ => step_outcome) hrun

end Resolving

/-! ## The reading of a text -/

inductive Piece where
  | text (s : List Char)
  | reference (name : List Char)

/-- A text, read from left to right. -/
inductive Scanned : List Char → List Piece → Prop where
  | nil : Scanned [] []
  | character {c : Char} {rest : List Char} {pieces : List Piece}
    (hfirst : ¬ secretPrefix <+: c :: rest) (hrest : Scanned rest pieces) :
    Scanned (c :: rest) (.text [c] :: pieces)
  | reference {value name rest : List Char} {pieces : List Piece}
    (hvalue : value = secretPrefix ++ (name ++ '\x7d' :: rest)) (hname : '\x7d' ∉ name)
    (hrest : Scanned rest pieces) : Scanned value (.reference name :: pieces)
  /-- From here on the text stays. -/
  | unterminated {value after : List Char} (hvalue : value = secretPrefix ++ after)
    (hend : '\x7d' ∉ after) : Scanned value [.text value]

/-- The text that a piece was read from. -/
def Piece.source : Piece → List Char
  | .text s => s
  | .reference name => secretPrefix ++ (name ++ ['\x7d'])

/-- What stands for a piece by `getenv`. -/
def Piece.resolved (env : String → Option String) : Piece → List Char
  | .text s => s
  | .reference name => secretValue env name

theorem scanned_exists (value : List Char) : ∃ pieces, Scanned value pieces := by
  induction hlength : value.length using Nat.strongRecOn generalizing value with
  | _ n ih =>
    cases value with
    | nil => exact ⟨[], .nil⟩
    | cons c rest =>
      rw [List.length_cons] at hlength
      by_cases hfirst : secretPrefix <+: c :: rest
      · obtain ⟨after, hafter⟩ := hfirst
        by_cases hend : '\x7d' ∈ after
        · obtain ⟨name, behind, rfl, hname⟩ := List.eq_append_cons_of_mem hend
          have hshort := congrArg List.length hafter
          rw [List.length_append, List.length_append, List.length_cons, List.length_cons] at hshort
          obtain ⟨pieces, hpieces⟩ := ih behind.length (by omega) behind rfl
          exact ⟨_, .reference hafter.symm hname hpieces⟩
        · exact ⟨_, .unterminated hafter.symm hend⟩
      · obtain ⟨pieces, hpieces⟩ := ih rest.length (by omega) rest rfl
        exact ⟨_, .character hfirst hpieces⟩

/-- The pieces are those of the text. -/
theorem Scanned.source {value : List Char} {pieces : List Piece} (h : Scanned value pieces) :
    pieces.flatMap Piece.source = value := by
  induction h with
  | nil => rfl
  | character hfirst hrest ih => rw [List.flatMap_cons, ih]; rfl
  | reference hvalue hname hrest ih =>
    rw [List.flatMap_cons, ih, hvalue]
    unfold Piece.source
    rw [List.append_assoc, List.append_assoc]
    rfl
  | unterminated hvalue hend => exact List.append_nil _

theorem Scanned.resolveText {value : List Char} {pieces : List Piece}
    (h : Scanned value pieces) (env : String → Option String) :
    resolveText env value = pieces.flatMap (Piece.resolved env) := by
  induction h with
  | nil => rfl
  | character hfirst hrest ih =>
    rw [resolveText_cons env hfirst, ih]
    rfl
  | reference hvalue hname hrest ih =>
    rw [hvalue, resolveText_reference env hname, ih]
    rfl
  | unterminated hvalue hend =>
    rw [hvalue, resolveText_unterminated env hend]
    exact (List.append_nil _).symm

theorem name_unique {name name' rest rest' : List Char} (hname : '\x7d' ∉ name)
    (hname' : '\x7d' ∉ name') (h : name ++ '\x7d' :: rest = name' ++ '\x7d' :: rest') :
    name = name' ∧ rest = rest' := by
  have hsame : name = name' := by
    rw [← takeWhile_name hname rest, h, takeWhile_name hname']
  rw [hsame] at h
  exact ⟨hsame, (List.cons.inj (List.append_cancel_left h)).2⟩

/-- A text has one reading. -/
theorem Scanned.unique {value : List Char} {pieces pieces' : List Piece}
    (h : Scanned value pieces) (h' : Scanned value pieces') : pieces = pieces' := by
  induction h generalizing pieces' with
  | nil =>
    cases h' with
    | nil => rfl
    | reference hvalue => exact absurd hvalue.symm (List.append_ne_nil_of_left_ne_nil (by decide) _)
    | unterminated hvalue =>
      exact absurd hvalue.symm (List.append_ne_nil_of_left_ne_nil (by decide) _)
  | character hfirst hrest ih =>
    cases h' with
    | character hfirst' hrest' => rw [ih hrest']
    | reference hvalue => exact absurd ⟨_, hvalue.symm⟩ hfirst
    | unterminated hvalue => exact absurd ⟨_, hvalue.symm⟩ hfirst
  | reference hvalue hname hrest ih =>
    cases h' with
    | nil => exact absurd hvalue.symm (List.append_ne_nil_of_left_ne_nil (by decide) _)
    | character hfirst => exact absurd ⟨_, hvalue.symm⟩ hfirst
    | reference hvalue' hname' hrest' =>
      obtain ⟨rfl, rfl⟩ := name_unique hname hname'
        (List.append_cancel_left (hvalue.symm.trans hvalue'))
      rw [ih hrest']
    | unterminated hvalue' hend =>
      rw [← List.append_cancel_left (hvalue.symm.trans hvalue')] at hend
      exact absurd (List.mem_append_right _ List.mem_cons_self) hend
  | unterminated hvalue hend =>
    cases h' with
    | nil => exact absurd hvalue.symm (List.append_ne_nil_of_left_ne_nil (by decide) _)
    | character hfirst => exact absurd ⟨_, hvalue.symm⟩ hfirst
    | reference hvalue' hname' hrest' =>
      rw [List.append_cancel_left (hvalue.symm.trans hvalue')] at hend
      exact absurd (List.mem_append_right _ List.mem_cons_self) hend
    | unterminated hvalue' hend' => rfl

/-! ## The substitution -/

/-- A name that a variable can have. -/
def IsName (name : List Char) : Prop := '\x00' ∉ name ∧ '=' ∉ name

instance (name : List Char) : Decidable (IsName name) := inferInstanceAs (Decidable (_ ∧ _))

/-- The variables that are set, and what `getenv` finds; for what is no name of a variable that
    depends on the C library. -/
structure Environment where
  lookup : String → Option String
  getenv : String → Option String
  named : ∀ name, ¬ IsName name.toList → lookup name = none
  found : ∀ name, IsName name.toList → getenv name = lookup name

namespace Environment

/-- The environment of the entries `name=value`, with the `getenv` of glibc: the first entry
    that starts with the name and `=`. -/
def glibc (entries : List (List Char)) : Environment :=
  let getenv : String → Option String := fun name =>
    if name = "" then none
    else (entries.find? fun e => (name.toList ++ ['=']).isPrefixOf e).map fun e =>
      String.ofList (e.drop (name.toList.length + 1))
  { lookup := fun name => if IsName name.toList then getenv name else none
    getenv := getenv
    named := fun _ h => if_neg h
    found := fun _ h => (if_pos h).symm }

/-- The variable's value, or nothing if it is not set. -/
def value (env : Environment) (name : List Char) : List Char :=
  ((env.lookup (String.ofList name)).getD "").toList

theorem value_of_no_name (env : Environment) {name : List Char} (h : ¬ IsName name) :
    env.value name = [] := by
  unfold value
  rw [env.named _ (by rwa [String.toList_ofList])]
  rfl

end Environment

/-- The piece with a reference replaced. -/
def Piece.substituted (env : Environment) : Piece → List Char
  | .text s => s
  | .reference name => env.value name

theorem secretValue_eq (env : Environment) {name : List Char} (h : IsName name) :
    secretValue env.getenv name = env.value name := by
  have hall : name.takeWhile (· ≠ '\x00') = name := by
    rw [List.takeWhile_eq_self_iff]
    exact fun c hc => decide_eq_true fun heq => h.1 (heq ▸ hc)
  unfold secretValue Environment.value
  rw [hall, env.found _ (by rwa [String.toList_ofList])]

/-- The pieces are resolved as they should be just if `getenv` finds nothing for the references
    that name no variable. -/
theorem resolved_eq_substituted_iff (env : Environment) (pieces : List Piece) :
    pieces.flatMap (Piece.resolved env.getenv) = pieces.flatMap (Piece.substituted env) ↔
      ∀ name, .reference name ∈ pieces → ¬ IsName name → secretValue env.getenv name = [] := by
  have hpiece : ∀ p ∈ pieces,
      p.substituted env = p.resolved env.getenv ∨ p.substituted env = [] := by
    intro p _
    cases p with
    | text s => exact .inl rfl
    | reference name =>
      by_cases hname : IsName name
      · exact .inl (secretValue_eq env hname).symm
      · exact .inr (env.value_of_no_name hname)
  rw [flatMap_eq_iff hpiece]
  constructor
  · intro h name hmem hname
    exact (h _ hmem).trans (env.value_of_no_name hname)
  · intro h p hp
    cases p with
    | text s => rfl
    | reference name =>
      by_cases hname : IsName name
      · exact secretValue_eq env hname
      · exact (h name hp hname).trans (env.value_of_no_name hname).symm

/-- A text has one reading, and in each environment the loop ends, with the references in it
    substituted exactly where `getenv` finds nothing, or an empty value, for each reference whose
    name has a `NUL` or a `=` in it. -/
theorem resolve_secrets_iff (value : List Char) : ∃ pieces,
    (∀ pieces', Scanned value pieces' ↔ pieces' = pieces) ∧
    pieces.flatMap Piece.source = value ∧
    ∀ env : Environment, ∃ n t,
      run (Resolving.step env.getenv value) {} (List.replicate n ()) = some t ∧
      t.step env.getenv value () = none ∧
      (t.result = pieces.flatMap (Piece.substituted env) ↔
        ∀ name, .reference name ∈ pieces → '\x00' ∈ name ∨ '=' ∈ name →
          (env.getenv (String.ofList (name.takeWhile (· ≠ '\x00')))).getD "" = "") := by
  obtain ⟨pieces, hpieces⟩ := scanned_exists value
  refine ⟨pieces, fun pieces' => ⟨fun h => h.unique hpieces, fun h => h ▸ hpieces⟩,
    hpieces.source, fun env => ?_⟩
  obtain ⟨n, t, hrun, hended, hresult⟩ := Resolving.resolve_run env.getenv value
  refine ⟨n, t, hrun, hended, ?_⟩
  rw [hresult, hpieces.resolveText env.getenv, resolved_eq_substituted_iff env pieces]
  refine forall₂_congr fun name _ => ?_
  unfold IsName secretValue
  rw [not_and_or, not_not, not_not, String.toList_eq_nil_iff]

/-- `A` is set to `B=C`. -/
def oneVariable : Environment := .glibc ["A=B=C".toList]

/-- No variable is named `A`, a `NUL` and more, or `A=B`: `getenv` finds the value of `A` and
    what is behind `A=B=`. -/
theorem odd_names_resolved :
    let value :=
      secretPrefix ++ ['A', '\x00', 'B', '\x7d'] ++ secretPrefix ++ ['A', '=', 'B', '\x7d']
    let pieces := [Piece.reference ['A', '\x00', 'B'], .reference ['A', '=', 'B']]
    Scanned value pieces ∧ pieces.flatMap (Piece.substituted oneVariable) = [] ∧
      (run (Resolving.step oneVariable.getenv value) {} [(), ()]).map
        (fun t => (t.result, (t.step oneVariable.getenv value ()).isNone)) =
          some (['B', '=', 'C', 'C'], true) := by
  refine ⟨.reference rfl (by decide) (.reference rfl (by decide) .nil), by decide, by decide⟩

end TruellmEngine.Config
