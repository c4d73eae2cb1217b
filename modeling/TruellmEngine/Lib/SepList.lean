/-
  Lists in a text: entries between separators, blanks around them trimmed, empty ones
  skipped.

  `Listable` describes the entries that can be written in such a list: every entry of a
  list is one (`listable_of_mem`), and each is the only entry of the list that it is
  itself (`entries_of_listable`).
-/
import Mathlib.Data.List.DropRight

namespace TruellmEngine.Lib

section SepList

variable {α : Type*} {sep : α} {blank : α → Bool}

def trim (blank : α → Bool) (xs : List α) : List α := (xs.dropWhile blank).rdropWhile blank

/-- The entries of the list `xs`. -/
def entries [DecidableEq α] (sep : α) (blank : α → Bool) (xs : List α) : List (List α) :=
  ((xs.splitOn sep).map (trim blank)).filter (· ≠ [])

structure Listable (sep : α) (blank : α → Bool) (e : List α) : Prop where
  nonempty : e ≠ []
  sep : sep ∉ e
  head : ∀ x ∈ e.head?, blank x = false
  last : ∀ x ∈ e.getLast?, blank x = false

/-- The ends of a trimmed text are no blanks. -/
theorem trim_ends (blank : α → Bool) (xs : List α) :
    (∀ x ∈ (trim blank xs).head?, blank x = false) ∧
    ∀ x ∈ (trim blank xs).getLast?, blank x = false := by
  constructor
  · intro x hx
    have hhead := List.head?_dropWhile_not blank xs
    have hprefix : trim blank xs <+: xs.dropWhile blank := List.rdropWhile_prefix blank _
    obtain ⟨ys, hys⟩ := hprefix
    rw [← hys, List.head?_append, Option.mem_def.mp hx] at hhead
    simpa using hhead
  · intro x hx
    have hne : trim blank xs ≠ [] := by
      rintro hnil
      rw [hnil] at hx
      cases hx
    have hlast : ¬ blank ((trim blank xs).getLast hne) = true :=
      List.rdropWhile_last_not blank (xs.dropWhile blank) hne
    rw [Option.mem_def, List.getLast?_eq_some_getLast hne] at hx
    cases hx
    simpa using hlast

/-- What is trimmed away. -/
theorem trim_split (blank : α → Bool) (xs : List α) :
    ∃ gap gap', xs = gap ++ (trim blank xs ++ gap') ∧ (∀ x ∈ gap, blank x = true) ∧
      ∀ x ∈ gap', blank x = true := by
  refine ⟨xs.takeWhile blank, (xs.dropWhile blank).rtakeWhile blank, ?_, ?_, ?_⟩
  · unfold trim
    rw [List.rdropWhile_append_rtakeWhile, List.takeWhile_append_dropWhile]
  · exact List.all_eq_true.mp List.all_takeWhile
  · exact fun x hx => List.mem_rtakeWhile_imp hx

/-- Blanks around a text without blanks at its ends are trimmed away. -/
theorem trim_around {gap e gap' : List α} (hgap : ∀ x ∈ gap, blank x = true)
    (hgap' : ∀ x ∈ gap', blank x = true) (hhead : ∀ x ∈ e.head?, blank x = false)
    (hlast : ∀ x ∈ e.getLast?, blank x = false) : trim blank (gap ++ (e ++ gap')) = e := by
  cases e with
  | nil =>
    unfold trim
    rw [List.nil_append, List.dropWhile_append_of_pos hgap, List.rdropWhile_eq_nil_iff]
    exact fun x hx => hgap' x ((List.dropWhile_suffix blank).subset hx)
  | cons x e =>
    have hfront : (gap ++ (x :: e ++ gap')).dropWhile blank = x :: e ++ gap' := by
      rw [List.dropWhile_append_of_pos hgap]
      exact List.dropWhile_cons_of_neg (by simp [hhead x rfl])
    have hback : (x :: e ++ gap').rdropWhile blank = (x :: e).rdropWhile blank := by
      unfold List.rdropWhile
      rw [List.reverse_append, List.dropWhile_append_of_pos]
      exact fun y hy => hgap' y (List.mem_reverse.mp hy)
    unfold trim
    rw [hfront, hback, List.rdropWhile_eq_self_iff]
    intro hne
    simp [hlast _ (List.getLast?_eq_some_getLast hne)]

theorem trim_eq_self {e : List α} (hhead : ∀ x ∈ e.head?, blank x = false)
    (hlast : ∀ x ∈ e.getLast?, blank x = false) : trim blank e = e := by
  have haround : trim blank ([] ++ (e ++ [])) = e :=
    trim_around (fun _ hx => absurd hx List.not_mem_nil) (fun _ hx => absurd hx List.not_mem_nil)
      hhead hlast
  rwa [List.nil_append, List.append_nil] at haround

theorem mem_of_mem_trim {x : α} {xs : List α} (h : x ∈ trim blank xs) : x ∈ xs :=
  (List.dropWhile_suffix blank).subset ((List.rdropWhile_prefix blank _).subset h)

variable [DecidableEq α]

theorem sep_notMem_of_mem_splitOn {xs e : List α} (h : e ∈ xs.splitOn sep) : sep ∉ e := by
  induction xs generalizing e with
  | nil =>
    rw [List.splitOn_nil, List.mem_singleton] at h
    rw [h]
    exact List.not_mem_nil
  | cons x xs ih =>
    rw [List.splitOn_cons_eq_if_modifyHead] at h
    split at h
    · rcases List.mem_cons.mp h with rfl | h
      · exact List.not_mem_nil
      · exact ih h
    · rename_i hx
      cases hparts : xs.splitOn sep with
      | nil => exact absurd hparts (List.splitOn_ne_nil _ _)
      | cons p ps =>
        rw [hparts, List.modifyHead_cons] at h
        rcases List.mem_cons.mp h with rfl | h
        · have hp : sep ∉ p := ih (by rw [hparts]; exact List.mem_cons_self)
          have hxsep : x ≠ sep := by simpa using hx
          simp [hp, hxsep.symm]
        · exact ih (by rw [hparts]; exact List.mem_cons_of_mem p h)

/-- The entries of a list can be written in one. -/
theorem listable_of_mem {xs e : List α} (h : e ∈ entries sep blank xs) :
    Listable sep blank e := by
  unfold entries at h
  obtain ⟨hmap, hne⟩ := List.mem_filter.mp h
  obtain ⟨part, hpart, rfl⟩ := List.mem_map.mp hmap
  obtain ⟨hhead, hlast⟩ := trim_ends blank part
  exact ⟨by simpa using hne, fun hsep => sep_notMem_of_mem_splitOn hpart (mem_of_mem_trim hsep),
    hhead, hlast⟩

/-- An entry alone is a list with this entry. -/
theorem entries_of_listable {e : List α} (h : Listable sep blank e) :
    entries sep blank e = [e] := by
  unfold entries
  rw [List.splitOn_eq_singleton h.sep, List.map_singleton, trim_eq_self h.head h.last]
  simp [h.nonempty]

end SepList

end TruellmEngine.Lib
