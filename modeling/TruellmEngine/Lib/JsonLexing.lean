/-
  The characters of a document's text by where they stand: outside of its texts, or inside one.

  `inner_eq_outer`: read from inside a text as if it were outside of one, a stretch shows its
  two kinds of characters the other way round, as long as neither shows a backslash outside.
-/
import Mathlib.Data.List.Basic

namespace TruellmEngine.Lib

/-- Where a character of a document stands; `escaped` is behind a backslash. -/
inductive Place where
  | outside
  | inside
  | escaped
  deriving DecidableEq

namespace Place

def next : Place → UInt8 → Place
  | outside, c => if c = 34 then inside else outside
  | inside, c => if c = 34 then outside else if c = 92 then escaped else inside
  | escaped, _ => inside

/-- Where the character behind a stretch stands. -/
def after (p : Place) (t : List UInt8) : Place := t.foldl next p

theorem after_append (p : Place) (s t : List UInt8) : p.after (s ++ t) = (p.after s).after t :=
  List.foldl_append

theorem after_cons (p : Place) (c : UInt8) (t : List UInt8) :
    p.after (c :: t) = (p.next c).after t :=
  rfl

/-- The characters outside of texts; the quotes of texts are no such characters. -/
def outer : Place → List UInt8 → List UInt8
  | _, [] => []
  | outside, c :: t => if c = 34 then outer inside t else c :: outer outside t
  | p, c :: t => outer (p.next c) t

/-- The characters inside of texts. -/
def inner : Place → List UInt8 → List UInt8
  | _, [] => []
  | outside, c :: t => inner (outside.next c) t
  | inside, c :: t => if c = 34 then inner outside t else c :: inner (inside.next c) t
  | escaped, c :: t => c :: inner inside t

/-- The texts that end in a stretch, where `body` is the beginning of the first one. -/
def literals : Place → List UInt8 → List UInt8 → List (List UInt8)
  | _, _, [] => []
  | outside, _, c :: t => literals (outside.next c) [] t
  | inside, body, c :: t =>
    if c = 34 then body :: literals outside [] t else literals (inside.next c) (body ++ [c]) t
  | escaped, body, c :: t => literals inside (body ++ [c]) t

theorem next_outside {c : UInt8} (hc : c ≠ 34) : outside.next c = outside := if_neg hc

theorem next_inside {c : UInt8} (hc : c ≠ 34) (hback : c ≠ 92) : inside.next c = inside := by
  rw [next, if_neg hc, if_neg hback]

theorem outer_outside {c : UInt8} (hc : c ≠ 34) (t : List UInt8) :
    outer outside (c :: t) = c :: outer outside t := by
  rw [outer, if_neg hc]

theorem outer_append (p : Place) (s t : List UInt8) :
    outer p (s ++ t) = outer p s ++ outer (p.after s) t := by
  induction s generalizing p with
  | nil =>
    rw [List.nil_append]
    cases p <;> rfl
  | cons c s ih =>
    rw [List.cons_append, after_cons]
    cases p with
    | outside =>
      by_cases hc : c = 34
      · rw [outer, if_pos hc, ih, outer, if_pos hc, next, if_pos hc]
      · rw [outer, if_neg hc, ih, outer, if_neg hc, next, if_neg hc]
        rfl
    | inside => exact ih _
    | escaped => exact ih _

/-- What is behind a stretch that ends outside of texts has texts of its own. -/
theorem literals_append {p : Place} {s : List UInt8} (h : p.after s = outside)
    (body t : List UInt8) :
    literals p body (s ++ t) = literals p body s ++ literals outside [] t := by
  induction s generalizing p body with
  | nil =>
    cases h
    cases t <;> rfl
  | cons c s ih =>
    rw [after_cons] at h
    rw [List.cons_append]
    cases p with
    | outside => exact ih h _
    | inside =>
      by_cases hc : c = 34
      · rw [next, if_pos hc] at h
        rw [literals, if_pos hc, ih h, literals, if_pos hc]
        rfl
      · rw [literals, if_neg hc, ih h, literals, if_neg hc]
    | escaped => exact ih h _

/-- A text is shorter than what it stands in. -/
theorem length_of_mem_literals {p : Place} {start t body : List UInt8}
    (h : body ∈ literals p start t) : body.length < start.length + t.length := by
  induction t generalizing p start with
  | nil => cases p <;> cases h
  | cons c t ih =>
    rw [List.length_cons]
    cases p with
    | outside =>
      have hlt := ih h
      rw [List.length_nil] at hlt
      omega
    | inside =>
      rw [literals] at h
      split at h
      · rcases List.mem_cons.mp h with rfl | h
        · omega
        · have hlt := ih h
          rw [List.length_nil] at hlt
          omega
      · have hlt := ih h
        rw [List.length_append, List.length_singleton] at hlt
        omega
    | escaped =>
      have hlt := ih h
      rw [List.length_append, List.length_singleton] at hlt
      omega

/-- What a text is made of stands inside of texts. -/
theorem mem_inner_of_mem_literals {p : Place} {start t body : List UInt8}
    (h : body ∈ literals p start t) {c : UInt8} (hc : c ∈ body) : c ∈ start ∨ c ∈ inner p t := by
  induction t generalizing p start with
  | nil => cases p <;> cases h
  | cons d t ih =>
    -- behind another text nothing has been read of `body` yet
    have hfresh : ∀ {q}, body ∈ literals q [] t → c ∈ inner q t := by
      intro q h
      exact (ih h).resolve_left List.not_mem_nil
    have hread : ∀ {q}, body ∈ literals q (start ++ [d]) t → c ∈ start ∨ c ∈ d :: inner q t := by
      intro q h
      rcases ih h with hstart | hinner
      · rw [List.mem_append, List.mem_singleton] at hstart
        exact hstart.imp_right (List.mem_cons.mpr <| .inl ·)
      · exact .inr (List.mem_cons_of_mem _ hinner)
    cases p with
    | outside => exact .inr (hfresh h)
    | inside =>
      rw [literals] at h
      rw [inner]
      by_cases hd : d = 34
      · rw [if_pos hd] at h ⊢
        rcases List.mem_cons.mp h with rfl | h
        · exact .inl hc
        · exact .inr (hfresh h)
      · rw [if_neg hd] at h ⊢
        exact hread h
    | escaped => exact hread h

/-- Read from the wrong side of a quote, the characters change sides. -/
theorem inner_eq_outer {t : List UInt8} (hout : 92 ∉ outer outside t) (hin : 92 ∉ outer inside t) :
    inner outside t = outer inside t ∧ inner inside t = outer outside t := by
  induction t with
  | nil => exact ⟨rfl, rfl⟩
  | cons c t ih =>
    by_cases hc : c = 34
    · subst hc
      obtain ⟨hfirst, hsecond⟩ := ih hin hout
      exact ⟨hsecond, hfirst⟩
    · rw [outer_outside hc] at hout
      have hback : c ≠ 92 := fun h => hout (h ▸ List.mem_cons_self)
      have hstep : outer inside (c :: t) = outer inside t := by
        show outer (inside.next c) t = _
        rw [next_inside hc hback]
      rw [hstep] at hin ⊢
      obtain ⟨hfirst, hsecond⟩ := ih (fun h => hout (List.mem_cons_of_mem _ h)) hin
      constructor
      · show inner (outside.next c) t = _
        rw [next_outside hc, hfirst]
      · rw [inner, if_neg hc, next_inside hc hback, hsecond, outer_outside hc]

end Place

/-! ## Texts in documents -/

/-- What can stand between two quotes. -/
inductive Body : List UInt8 → Prop
  | nil : Body []
  | plain {c : UInt8} {body : List UInt8} : c ≠ 34 → c ≠ 92 → Body body → Body (c :: body)
  | escape (c : UInt8) {body : List UInt8} : Body body → Body (92 :: c :: body)

/-- A text with its quotes. -/
def literal (body : List UInt8) : List UInt8 := 34 :: (body ++ [34])

open Place

variable {body : List UInt8}

theorem Body.after (h : Body body) : inside.after body = inside := by
  induction h with
  | nil => rfl
  | plain hc hback _ ih => rw [after_cons, next_inside hc hback, ih]
  | escape c _ ih => exact ih

theorem Body.outer (h : Body body) : outer inside body = [] := by
  induction h with
  | nil => rfl
  | plain hc hback _ ih =>
    show Place.outer (inside.next _) _ = []
    rw [next_inside hc hback, ih]
  | escape c _ ih => exact ih

theorem Body.literals (h : Body body) (start : List UInt8) :
    literals inside start (body ++ [34]) = [start ++ body] := by
  induction h generalizing start with
  | nil => exact congrArg (· :: []) (List.append_nil start).symm
  | @plain c body hc hback _ ih =>
    rw [List.cons_append, Place.literals, if_neg hc, next_inside hc hback, ih, List.append_assoc]
    rfl
  | @escape c body _ ih =>
    show Place.literals inside (start ++ [92] ++ [c]) (body ++ [34]) = _
    rw [ih, List.append_assoc, List.append_assoc]
    rfl

theorem after_literal (h : Body body) : outside.after (literal body) = outside := by
  show inside.after (body ++ [34]) = outside
  rw [after_append, h.after]
  rfl

theorem outer_literal (h : Body body) : outer outside (literal body) = [] := by
  show outer inside (body ++ [34]) = []
  rw [outer_append, h.outer, h.after]
  rfl

theorem literals_literal (h : Body body) : literals outside [] (literal body) = [body] :=
  h.literals []

/-- Where there is no quote, all is outside. -/
theorem outer_unquoted {t : List UInt8} (h : 34 ∉ t) :
    outer outside t = t ∧ outside.after t = outside ∧ literals outside [] t = [] := by
  induction t with
  | nil => exact ⟨rfl, rfl, rfl⟩
  | cons c t ih =>
    obtain ⟨hc, ht⟩ := List.ne_and_not_mem_of_not_mem_cons h
    obtain ⟨houter, hafter, hliterals⟩ := ih ht
    refine ⟨?_, ?_, ?_⟩
    · rw [outer_outside hc.symm, houter]
    · rw [after_cons, next_outside hc.symm, hafter]
    · show literals (outside.next c) [] t = []
      rw [next_outside hc.symm, hliterals]

end TruellmEngine.Lib
