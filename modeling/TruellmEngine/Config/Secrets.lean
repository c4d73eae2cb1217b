/-
  References to environment variables in the strings of a configuration (`secrets.cpp`).

  `env` is `getenv`. A step of `resolveLoop` takes one character or one reference, so the length
  of the text bounds their number. `Resolving.resolve_run` says the same of the loop as it is
  written, by positions.
-/
import Mathlib.Data.List.Basic
import Mathlib.Data.List.TakeWhile

namespace TruellmEngine.Config

variable (env : String → Option String)

/-- `PREFIX` -/
def secretPrefix : List Char := "$\x7bENV:".toList

/-- `std::getenv`, of a name up to its first `NUL`. A variable that is not set is empty. -/
def secretValue (name : List Char) : List Char :=
  ((env (String.ofList (name.takeWhile (· ≠ '\x00')))).getD "").toList

/-- What `resolve_secrets` makes of the rest of the text. -/
def resolveLoop : Nat → List Char → List Char
  | 0, _ => []
  | _ + 1, [] => []
  | left + 1, c :: rest =>
    if secretPrefix.isPrefixOf (c :: rest) then
      let token := (c :: rest).drop secretPrefix.length
      match token.dropWhile (· ≠ '\x7d') with
      | [] => c :: rest
      | _ :: behind => secretValue env (token.takeWhile (· ≠ '\x7d')) ++ resolveLoop left behind
    else c :: resolveLoop left rest

/-- `resolve_secrets`, on characters. -/
def resolveText (text : List Char) : List Char := resolveLoop env text.length text

def resolveSecrets (value : String) : String := String.ofList (resolveText env value.toList)

/-! ## What is resolved -/

/-- Behind a reference less than the text is left. -/
theorem length_behind {s behind : List Char} {c : Char}
    (h : (s.drop secretPrefix.length).dropWhile (· ≠ '\x7d') = c :: behind) :
    behind.length < s.length := by
  have hdrop := (List.dropWhile_sublist (· ≠ '\x7d') (l := s.drop secretPrefix.length)).length_le
  rw [h, List.length_cons, List.length_drop] at hdrop
  omega

/-- Steps beyond the length of the text do nothing. -/
theorem resolveLoop_enough {n m : Nat} {s : List Char} (hn : s.length ≤ n) (hm : s.length ≤ m) :
    resolveLoop env n s = resolveLoop env m s := by
  induction n generalizing m s with
  | zero =>
    obtain rfl := List.length_eq_zero_iff.mp (Nat.le_zero.mp hn)
    cases m <;> rfl
  | succ n ih =>
    cases s with
    | nil => cases m <;> rfl
    | cons c rest =>
      cases m with
      | zero => exact absurd hm (Nat.not_succ_le_zero _)
      | succ m =>
        have hrest : rest.length ≤ n := Nat.le_of_succ_le_succ hn
        have hrest' : rest.length ≤ m := Nat.le_of_succ_le_succ hm
        unfold resolveLoop
        split_ifs with href
        · dsimp only
          split
          · rfl
          · rename_i behind hbehind
            have hlt := length_behind hbehind
            rw [List.length_cons] at hlt
            rw [ih (m := m) (by omega) (by omega)]
        · rw [ih hrest hrest']

theorem secretPrefix_cons : secretPrefix = '$' :: "\x7bENV:".toList := by decide

theorem length_secretPrefix_append (after : List Char) :
    (secretPrefix ++ after).length = 5 + after.length + 1 := by
  rw [List.length_append, secretPrefix_cons]
  show 6 + _ = _
  omega

theorem secretPrefix_isPrefixOf (after : List Char) :
    secretPrefix.isPrefixOf (secretPrefix ++ after) = true :=
  List.isPrefixOf_iff_prefix.mpr (List.prefix_append _ _)

theorem takeWhile_name {name : List Char} (h : '\x7d' ∉ name) (rest : List Char) :
    (name ++ '\x7d' :: rest).takeWhile (· ≠ '\x7d') = name := by
  have hname : ∀ c ∈ name, decide (c ≠ '\x7d') = true := by
    intro c hc
    exact decide_eq_true fun heq => h (heq ▸ hc)
  rw [List.takeWhile_append_of_pos hname]
  exact List.append_nil name

/-- A reference is replaced by the value of its variable. -/
theorem resolveText_reference {name rest : List Char} (h : '\x7d' ∉ name) :
    resolveText env (secretPrefix ++ (name ++ '\x7d' :: rest)) =
      secretValue env name ++ resolveText env rest := by
  have hname : ∀ c ∈ name, decide (c ≠ '\x7d') = true := by
    intro c hc
    exact decide_eq_true fun heq => h (heq ▸ hc)
  have hdrop : (name ++ '\x7d' :: rest).dropWhile (· ≠ '\x7d') = '\x7d' :: rest := by
    rw [List.dropWhile_append_of_pos hname]
    rfl
  have hstep (k : Nat) : resolveLoop env (k + 1) (secretPrefix ++ (name ++ '\x7d' :: rest)) =
      secretValue env name ++ resolveLoop env k rest := by
    nth_rewrite 1 [secretPrefix_cons]
    rw [List.cons_append, resolveLoop, ← List.cons_append, ← secretPrefix_cons,
      if_pos (secretPrefix_isPrefixOf _), List.drop_left]
    dsimp only
    rw [hdrop, takeWhile_name h]
  unfold resolveText
  rw [length_secretPrefix_append, hstep]
  congr 1
  apply resolveLoop_enough env _ (Nat.le_refl _)
  rw [List.length_append, List.length_cons]
  omega

/-- A character where no reference begins is as it was. -/
theorem resolveText_cons {c : Char} {rest : List Char} (h : ¬ secretPrefix <+: c :: rest) :
    resolveText env (c :: rest) = c :: resolveText env rest := by
  unfold resolveText
  rw [List.length_cons, resolveLoop, if_neg (mt List.isPrefixOf_iff_prefix.mp h)]

/-- A reference without an end is as it was. -/
theorem resolveText_unterminated {after : List Char} (h : '\x7d' ∉ after) :
    resolveText env (secretPrefix ++ after) = secretPrefix ++ after := by
  have hend : after.dropWhile (· ≠ '\x7d') = [] := by
    rw [List.dropWhile_eq_nil_iff]
    exact fun c hc => decide_eq_true fun heq => h (heq ▸ hc)
  unfold resolveText
  rw [length_secretPrefix_append]
  nth_rewrite 1 [secretPrefix_cons]
  rw [List.cons_append, resolveLoop, ← List.cons_append, ← secretPrefix_cons,
    if_pos (secretPrefix_isPrefixOf _), List.drop_left]
  dsimp only
  rw [hend]

/-- A text without a dollar sign is as it was. -/
theorem resolveText_append {s : List Char} (rest : List Char) (h : '$' ∉ s) :
    resolveText env (s ++ rest) = s ++ resolveText env rest := by
  induction s with
  | nil => rfl
  | cons c s ih =>
    obtain ⟨hc, hs⟩ := not_or.mp (mt List.mem_cons.mpr h)
    have hfirst : ¬ secretPrefix <+: c :: (s ++ rest) := by
      rintro ⟨behind, hbehind⟩
      exact hc (List.cons.inj hbehind).1
    rw [List.cons_append, resolveText_cons env hfirst, ih hs, List.cons_append]

theorem resolveSecrets_plain {s : String} (h : '$' ∉ s.toList) : resolveSecrets env s = s := by
  have hplain := resolveText_append env [] h
  rw [List.append_nil] at hplain
  unfold resolveSecrets
  rw [hplain]
  exact (congrArg String.ofList (List.append_nil _)).trans String.ofList_toList

end TruellmEngine.Config
