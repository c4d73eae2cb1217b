/-
  Searching a text for another from a place on, as strings are searched: the least place where
  the pattern stands.

  `findFrom_eq_some` and `findFrom_eq_none` say what a search gives as a split of the rest of the
  text. `flatMap_eq_iff` compares two ways to write the pieces of a text.
-/
import Mathlib.Data.List.Infix

namespace TruellmEngine.Lib

variable {α : Type*}

/-- Where `rest` goes on from `text`, no `pat` begins in `text`. -/
def NoneBegins (pat : List α) : List α → List α → Prop
  | [], _ => True
  | c :: text, rest => ¬ pat <+: c :: (text ++ rest) ∧ NoneBegins pat text rest

theorem NoneBegins.not_mem {c : α} {text rest : List α} (h : NoneBegins [c] text rest) :
    c ∉ text := by
  induction text with
  | nil => exact List.not_mem_nil
  | cons d text ih =>
    intro hc
    rcases List.mem_cons.mp hc with rfl | hc
    · exact h.1 ⟨text ++ rest, rfl⟩
    · exact ih h.2 hc

section

variable [DecidableEq α]

/-- The least place where `pat` stands. -/
def findIn (pat : List α) : List α → Option Nat
  | [] => if pat = [] then some 0 else none
  | c :: s => if pat.isPrefixOf (c :: s) then some 0 else (findIn pat s).map (· + 1)

/-- The least place from `pos` on. -/
def findFrom (pat s : List α) (pos : Nat) : Option Nat := (findIn pat (s.drop pos)).map (pos + ·)

variable {pat s : List α}

theorem findIn_eq_some {i : Nat} (h : findIn pat s = some i) : ∃ text rest,
    s = text ++ (pat ++ rest) ∧ text.length = i ∧ NoneBegins pat text (pat ++ rest) := by
  induction s generalizing i with
  | nil =>
    unfold findIn at h
    split at h
    · rename_i hpat
      cases h
      exact ⟨[], [], by rw [hpat]; rfl, rfl, trivial⟩
    · cases h
  | cons c s ih =>
    unfold findIn at h
    split at h
    · rename_i hprefix
      cases h
      obtain ⟨rest, hrest⟩ := List.isPrefixOf_iff_prefix.mp hprefix
      exact ⟨[], rest, hrest.symm, rfl, trivial⟩
    · rename_i hprefix
      obtain ⟨j, hj, rfl⟩ := Option.map_eq_some_iff.mp h
      obtain ⟨text, rest, rfl, hlength, hnone⟩ := ih hj
      refine ⟨c :: text, rest, rfl, by rw [List.length_cons, hlength], ?_, hnone⟩
      exact fun hpat => hprefix (List.isPrefixOf_iff_prefix.mpr hpat)

theorem findIn_eq_none (h : findIn pat s = none) : NoneBegins pat s [] := by
  induction s with
  | nil => trivial
  | cons c s ih =>
    unfold findIn at h
    split at h
    · cases h
    · rename_i hprefix
      refine ⟨?_, ih (Option.map_eq_none_iff.mp h)⟩
      rw [List.append_nil]
      exact fun hpat => hprefix (List.isPrefixOf_iff_prefix.mpr hpat)

theorem findFrom_eq_some {pos i : Nat} (h : findFrom pat s pos = some i) : ∃ text rest,
    s.drop pos = text ++ (pat ++ rest) ∧ i = pos + text.length ∧
      NoneBegins pat text (pat ++ rest) := by
  obtain ⟨j, hj, rfl⟩ := Option.map_eq_some_iff.mp h
  obtain ⟨text, rest, hs, rfl, hnone⟩ := findIn_eq_some hj
  exact ⟨text, rest, hs, rfl, hnone⟩

theorem findFrom_eq_none {pos : Nat} (h : findFrom pat s pos = none) :
    NoneBegins pat (s.drop pos) [] :=
  findIn_eq_none (Option.map_eq_none_iff.mp h)

end

/-! ## Pieces -/

variable {β : Type*} {f g : α → List β}

theorem length_flatMap_le {ps : List α} (h : ∀ p ∈ ps, g p = f p ∨ g p = []) :
    (ps.flatMap g).length ≤ (ps.flatMap f).length := by
  induction ps with
  | nil => exact Nat.le_refl _
  | cons p ps ih =>
    obtain ⟨hp, hps⟩ := List.forall_mem_cons.mp h
    have hrest := ih hps
    rw [List.flatMap_cons, List.flatMap_cons, List.length_append, List.length_append]
    rcases hp with hp | hp
    · rw [hp]
      omega
    · rw [hp, List.length_nil]
      omega

/-- Where `g` leaves pieces out, the pieces are written alike just if `f` has nothing there. -/
theorem flatMap_eq_iff {ps : List α} (h : ∀ p ∈ ps, g p = f p ∨ g p = []) :
    ps.flatMap f = ps.flatMap g ↔ ∀ p ∈ ps, f p = g p := by
  constructor
  · intro heq
    induction ps with
    | nil => exact fun p hp => absurd hp List.not_mem_nil
    | cons p ps ih =>
      obtain ⟨hp, hps⟩ := List.forall_mem_cons.mp h
      have hle := length_flatMap_le hps
      rw [List.flatMap_cons, List.flatMap_cons] at heq
      have hfirst : f p = g p := by
        rcases hp with hp | hp
        · exact hp.symm
        · have hlength := congrArg List.length heq
          rw [hp, List.nil_append, List.length_append] at hlength
          rw [hp]
          exact List.length_eq_zero_iff.mp (by omega)
      rw [hfirst] at heq
      exact List.forall_mem_cons.mpr ⟨hfirst, ih hps (List.append_cancel_left heq)⟩
  · exact fun hall => List.flatMap_congr hall

end TruellmEngine.Lib
