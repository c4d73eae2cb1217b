/-
  The shape of a document's text: brackets around items and fields, quotes around texts, and
  between them commas, colons and blanks. The shape says less than the grammar of documents
  does; it is all that is needed to know where a text can begin and end.

  `Shape.tidy`: outside of its texts a document has its own characters only, and its brackets
  match. `strings_read` and `strings_written`: the texts of a document are those in its text.
  `JsonText.Shaped` is what is asked of a writer and a reader.
-/
import Mathlib.Data.List.Flatten
import Mathlib.Data.List.Perm.Subperm
import TruellmEngine.Lib.Brackets
import TruellmEngine.Lib.JsonLexing
import TruellmEngine.Lib.JsonText

namespace TruellmEngine.Lib

namespace Json

mutual

/-- All texts of a document, its keys among them. -/
def strings : Json → List String
  | .string s => [s]
  | .array xs => itemStrings xs
  | .object fields => fieldStrings fields
  | _ => []

def itemStrings : List Json → List String
  | [] => []
  | x :: xs => strings x ++ itemStrings xs

def fieldStrings : List (String × Json) → List String
  | [] => []
  | (key, v) :: fields => key :: (strings v ++ fieldStrings fields)

end

mutual

theorem strings_canon : ∀ j : Json, j.canon.strings = j.strings
  | .null | .boolean _ | .unsigned _ | .float _ | .string _ => rfl
  | .integer i => by
    rw [canon]
    split <;> rfl
  | .array xs => strings_canons xs
  | .object fields => strings_canonFields fields

theorem strings_canons : ∀ xs : List Json, itemStrings (canons xs) = itemStrings xs
  | [] => rfl
  | x :: xs => by rw [canons, itemStrings, strings_canon x, strings_canons xs, itemStrings]

theorem strings_canonFields : ∀ fields : List (String × Json),
    fieldStrings (canonFields fields) = fieldStrings fields
  | [] => rfl
  | (key, v) :: fields => by
    rw [canonFields, fieldStrings, strings_canon v, strings_canonFields fields, fieldStrings]

end

theorem fieldStrings_eq_flatMap (fields : List (String × Json)) :
    fieldStrings fields = fields.flatMap fun f => f.1 :: f.2.strings := by
  induction fields with
  | nil => rfl
  | cons f fields ih => rw [fieldStrings, ih, List.flatMap_cons, List.cons_append]

/-- A field brings its key and its texts. -/
theorem strings_field {j v : Json} {key : String} (h : j.field? key = some v) :
    (key :: v.strings).Sublist j.strings := by
  cases j with
  | object fields =>
    obtain ⟨front, back, rfl, -⟩ := List.lookup_eq_some_iff.mp h
    show List.Sublist _ (fieldStrings _)
    rw [fieldStrings_eq_flatMap, List.flatMap_append, List.flatMap_cons]
    exact (List.sublist_append_left _ _).trans (List.sublist_append_right _ _)
  | _ => cases h

/-- Neither a text nor a container. -/
def isScalar : Json → Bool
  | .string _ | .array _ | .object _ => false
  | _ => true

end Json

/-! ## Characters outside of texts -/

def gapChars : List UInt8 := bytes ",: \t\n\r"

/-- Those of numbers, and of the words for the other scalars. -/
def scalarChars : List UInt8 := bytes "+-.0123456789Eaeflnrstu"

def structural : List UInt8 := bytes "[]\x7b\x7d" ++ (gapChars ++ scalarChars)

open Place

/-- A stretch between two characters outside of texts. -/
structure Tidy (t : List UInt8) : Prop where
  closed : outside.after t = outside
  structural : ∀ c ∈ outer outside t, c ∈ structural
  nested : Nested 123 125 (outer outside t)

variable {s t : List UInt8}

theorem Tidy.append (hs : Tidy s) (ht : Tidy t) : Tidy (s ++ t) where
  closed := by rw [after_append, hs.closed, ht.closed]
  structural := by
    rw [outer_append, hs.closed]
    exact List.forall_mem_append.mpr ⟨hs.structural, ht.structural⟩
  nested := by
    rw [outer_append, hs.closed]
    exact hs.nested.append ht.nested

theorem tidy_literal {body : List UInt8} (h : Body body) : Tidy (literal body) where
  closed := after_literal h
  structural := by
    rw [outer_literal h]
    exact fun _ hc => absurd hc List.not_mem_nil
  nested := by
    rw [outer_literal h]
    exact nested_of_free List.not_mem_nil List.not_mem_nil

theorem quote_not_structural : 34 ∉ structural := by decide +kernel

/-- Without brackets and texts. -/
def Loose (t : List UInt8) : Prop := ∀ c ∈ t, c ∈ gapChars ++ scalarChars

theorem Loose.unquoted (h : Loose t) : 34 ∉ t :=
  fun hc => quote_not_structural (List.mem_append_right _ (h 34 hc))

theorem Loose.outer (h : Loose t) : outer outside t = t := (outer_unquoted h.unquoted).1

theorem tidy_loose (h : Loose t) : Tidy t where
  closed := (outer_unquoted h.unquoted).2.1
  structural := by
    rw [h.outer]
    intro c hc
    exact List.mem_append_right _ (h c hc)
  nested := by
    rw [h.outer]
    apply nested_of_free
    · exact fun hc => absurd (h 123 hc) (by decide)
    · exact fun hc => absurd (h 125 hc) (by decide)

theorem outer_bracket {l r : UInt8} (hl : l ≠ 34) (hr : r ≠ 34) (ht : outside.after t = outside) :
    outer outside (l :: (t ++ [r])) = l :: (outer outside t ++ [r]) := by
  rw [outer_outside hl, outer_append, ht, outer_outside hr]
  rfl

theorem closed_bracket {l r : UInt8} (hl : l ≠ 34) (hr : r ≠ 34)
    (ht : outside.after t = outside) : outside.after (l :: (t ++ [r])) = outside := by
  rw [after_cons, next_outside hl, after_append, ht]
  exact next_outside hr

theorem literals_bracket {l r : UInt8} (hl : l ≠ 34) (hr : r ≠ 34)
    (ht : outside.after t = outside) :
    literals outside [] (l :: (t ++ [r])) = literals outside [] t := by
  show literals (outside.next l) [] (t ++ [r]) = _
  rw [next_outside hl, literals_append ht]
  show _ ++ literals (outside.next r) [] [] = _
  rw [next_outside hr]
  exact List.append_nil _

/-- Braces around a stretch: the first is closed by the last one. -/
theorem Tidy.enclosed (ht : Tidy t) : Enclosed 123 125 (outer outside (123 :: (t ++ [125]))) := by
  rw [outer_bracket (by decide) (by decide) ht.closed]
  exact ht.nested.enclosed (by decide)

theorem tidy_braces (ht : Tidy t) : Tidy (123 :: (t ++ [125])) where
  closed := closed_bracket (by decide) (by decide) ht.closed
  structural := by
    rw [outer_bracket (by decide) (by decide) ht.closed, List.forall_mem_cons,
      List.forall_mem_append]
    exact ⟨by decide +kernel, ht.structural, by decide +kernel⟩
  nested := ht.enclosed.nested

theorem tidy_brackets (ht : Tidy t) : Tidy (91 :: (t ++ [93])) where
  closed := closed_bracket (by decide) (by decide) ht.closed
  structural := by
    rw [outer_bracket (by decide) (by decide) ht.closed, List.forall_mem_cons,
      List.forall_mem_append]
    exact ⟨by decide +kernel, ht.structural, by decide +kernel⟩
  nested := by
    rw [outer_bracket (by decide) (by decide) ht.closed]
    exact (nested_of_free (by decide) (by decide)).append (s := [91])
      (ht.nested.append (nested_of_free (by decide) (by decide)))

/-! ## Documents -/

/-- What a stretch of text stands for. -/
inductive Part where
  | value (j : Json)
  | items (xs : List Json)
  | fields (fs : List (String × Json))

/-- The texts of a part, keys among them. -/
def Part.strings : Part → List String
  | value j => j.strings
  | items xs => Json.itemStrings xs
  | fields fs => Json.fieldStrings fs

/-- The shape of a text. `unescape` gives what stands between two quotes, and `kept` says which
    of the fields in the text an object has. -/
inductive Shape (unescape : List UInt8 → String)
    (kept : List (String × Json) → List (String × Json) → Prop) : Part → List UInt8 → Prop
  | scalar {j : Json} {t : List UInt8} : j.isScalar = true → (∀ c ∈ t, c ∈ scalarChars) →
      Shape unescape kept (.value j) t
  | text {body : List UInt8} : Body body →
      Shape unescape kept (.value (.string (unescape body))) (literal body)
  | array {xs : List Json} {t : List UInt8} : Shape unescape kept (.items xs) t →
      Shape unescape kept (.value (.array xs)) (91 :: (t ++ [93]))
  | object {fields all : List (String × Json)} {t : List UInt8} : kept fields all →
      Shape unescape kept (.fields all) t →
      Shape unescape kept (.value (.object fields)) (123 :: (t ++ [125]))
  | noItems {gap : List UInt8} : (∀ c ∈ gap, c ∈ gapChars) →
      Shape unescape kept (.items []) gap
  | item {x : Json} {xs : List Json} {gap s t : List UInt8} : (∀ c ∈ gap, c ∈ gapChars) →
      Shape unescape kept (.value x) s → Shape unescape kept (.items xs) t →
      Shape unescape kept (.items (x :: xs)) (gap ++ (s ++ t))
  | noFields {gap : List UInt8} : (∀ c ∈ gap, c ∈ gapChars) →
      Shape unescape kept (.fields []) gap
  | field {body : List UInt8} {v : Json} {fields : List (String × Json)}
      {gap colon s t : List UInt8} : (∀ c ∈ gap, c ∈ gapChars) → Body body →
      (∀ c ∈ colon, c ∈ gapChars) → Shape unescape kept (.value v) s →
      Shape unescape kept (.fields fields) t →
      Shape unescape kept (.fields ((unescape body, v) :: fields))
        (gap ++ (literal body ++ (colon ++ (s ++ t))))

/-- Of fields with one key, an object has one. -/
abbrev Read (unescape : List UInt8 → String) : Part → List UInt8 → Prop :=
  Shape unescape List.Subperm

abbrev Printed (unescape : List UInt8 → String) : Part → List UInt8 → Prop :=
  Shape unescape Eq

variable {unescape : List UInt8 → String}
  {kept : List (String × Json) → List (String × Json) → Prop} {part : Part}

theorem loose_gap (h : ∀ c ∈ t, c ∈ gapChars) : Loose t :=
  fun c hc => List.mem_append_left _ (h c hc)

theorem Shape.tidy (h : Shape unescape kept part t) : Tidy t := by
  induction h with
  | scalar _ hchars => exact tidy_loose fun c hc => List.mem_append_right _ (hchars c hc)
  | text hbody => exact tidy_literal hbody
  | array _ ih => exact tidy_brackets ih
  | object _ _ ih => exact tidy_braces ih
  | noItems hgap => exact tidy_loose (loose_gap hgap)
  | item hgap _ _ ihx ihxs => exact (tidy_loose (loose_gap hgap)).append (ihx.append ihxs)
  | noFields hgap => exact tidy_loose (loose_gap hgap)
  | field hgap hbody hcolon _ _ ihv ihfields =>
    exact (tidy_loose (loose_gap hgap)).append ((tidy_literal hbody).append
      ((tidy_loose (loose_gap hcolon)).append (ihv.append ihfields)))

/-- The texts in a stretch. -/
def texts (unescape : List UInt8 → String) (t : List UInt8) : List String :=
  (literals outside [] t).map unescape

theorem texts_append (hs : outside.after s = outside) :
    texts unescape (s ++ t) = texts unescape s ++ texts unescape t := by
  unfold texts
  rw [literals_append hs, List.map_append]

theorem texts_unquoted_append (hs : 34 ∉ s) : texts unescape (s ++ t) = texts unescape t := by
  obtain ⟨-, hafter, hnone⟩ := outer_unquoted hs
  rw [texts_append hafter, texts, hnone]
  rfl

theorem texts_literal {body : List UInt8} (h : Body body) :
    texts unescape (literal body) = [unescape body] := by
  unfold texts
  rw [literals_literal h]
  rfl

/-- The texts of a document are related to those in its text as its fields are. -/
theorem Shape.strings {rel : List String → List String → Prop} (hrefl : ∀ a, rel a a)
    (htrans : ∀ {a b c}, rel a b → rel b c → rel a c)
    (happend : ∀ {a b c d}, rel a b → rel c d → rel (a ++ c) (b ++ d))
    (hkept : ∀ {fields all}, kept fields all →
      rel (Json.fieldStrings fields) (Json.fieldStrings all))
    (h : Shape unescape kept part t) : rel part.strings (texts unescape t) := by
  induction h with
  | @scalar j t hj hchars =>
    have hloose : Loose t := fun c hc => List.mem_append_right _ (hchars c hc)
    have hnone : j.strings = [] := by
      cases j with
      | string | array | object => cases hj
      | _ => rfl
    show rel j.strings _
    rw [hnone, texts, (outer_unquoted hloose.unquoted).2.2]
    exact hrefl []
  | text hbody =>
    rw [texts_literal hbody]
    exact hrefl _
  | array hitems ih =>
    rw [texts, literals_bracket (by decide) (by decide) hitems.tidy.closed]
    exact ih
  | object hfields hall ih =>
    rw [texts, literals_bracket (by decide) (by decide) hall.tidy.closed]
    exact htrans (hkept hfields) ih
  | noItems hgap | noFields hgap =>
    rw [texts, (outer_unquoted (loose_gap hgap).unquoted).2.2]
    exact hrefl []
  | item hgap hx _ ihx ihxs =>
    rw [texts_unquoted_append (loose_gap hgap).unquoted, texts_append hx.tidy.closed]
    exact happend ihx ihxs
  | field hgap hbody hcolon hv _ ihv ihfields =>
    rw [texts_unquoted_append (loose_gap hgap).unquoted, texts_append (after_literal hbody),
      texts_literal hbody, texts_unquoted_append (loose_gap hcolon).unquoted,
      texts_append hv.tidy.closed]
    exact happend (hrefl [_]) (happend ihv ihfields)

theorem strings_read (h : Read unescape part t) : part.strings.Subperm (texts unescape t) := by
  apply Shape.strings List.Subperm.refl List.Subperm.trans List.Subperm.append _ h
  intro fields all hkept
  obtain ⟨fields', hperm, hsub⟩ := hkept
  rw [Json.fieldStrings_eq_flatMap, Json.fieldStrings_eq_flatMap]
  exact ⟨_, hperm.flatMap_right _, hsub.flatMap _⟩

theorem strings_printed (h : Printed unescape part t) : part.strings = texts unescape t := by
  apply Shape.strings (fun _ => rfl) Eq.trans _ _ h
  · rintro _ _ _ _ rfl rfl
    rfl
  · rintro _ _ rfl
    rfl

/-! ## Objects -/

theorem Shape.object_eq {fields : List (String × Json)}
    (h : Shape unescape kept (.value (.object fields)) t) :
    ∃ all m, t = 123 :: (m ++ [125]) ∧ kept fields all ∧ Shape unescape kept (.fields all) m := by
  cases h with
  | scalar hj => cases hj
  | object hkept hall => exact ⟨_, _, rfl, hkept, hall⟩

theorem Shape.field_eq {key : String} {v : Json} {fields : List (String × Json)}
    (h : Shape unescape kept (.fields ((key, v) :: fields)) t) :
    ∃ gap body colon s rest, t = gap ++ (literal body ++ (colon ++ (s ++ rest))) ∧ Loose gap ∧
      Body body ∧ Loose colon ∧ Shape unescape kept (.value v) s ∧
      Shape unescape kept (.fields fields) rest := by
  cases h with
  | field hgap hbody hcolon hv hfields =>
    exact ⟨_, _, _, _, _, rfl, loose_gap hgap, hbody, loose_gap hcolon, hv, hfields⟩

/-- Without objects in it. -/
structure Flat (t : List UInt8) : Prop where
  tidy : Tidy t
  free : 123 ∉ outer outside t

theorem Flat.append (hs : Flat s) (ht : Flat t) : Flat (s ++ t) where
  tidy := hs.tidy.append ht.tidy
  free := by
    rw [outer_append, hs.tidy.closed, List.mem_append]
    exact not_or.mpr ⟨hs.free, ht.free⟩

theorem flat_literal {body : List UInt8} (h : Body body) : Flat (literal body) where
  tidy := tidy_literal h
  free := by
    rw [outer_literal h]
    exact List.not_mem_nil

theorem flat_loose (h : Loose t) : Flat t where
  tidy := tidy_loose h
  free := by
    rw [h.outer]
    exact fun hc => absurd (h 123 hc) (by decide)

/-- The last field of an object is flat if it is a string. -/
theorem Shape.flat_string {key s : String}
    (h : Shape unescape kept (.fields [(key, .string s)]) t) : Flat t := by
  obtain ⟨gap, body, colon, v, rest, rfl, hgap, hbody, hcolon, hv, hrest⟩ := h.field_eq
  have hvalue : Flat v := by
    cases hv with
    | scalar hj => cases hj
    | text hbody => exact flat_literal hbody
  have hend : Flat rest := by
    cases hrest with
    | noFields hgap => exact flat_loose (loose_gap hgap)
  exact (flat_loose hgap).append ((flat_literal hbody).append
    ((flat_loose hcolon).append (hvalue.append hend)))

/-- A brace of an object is open up to its end. -/
theorem Tidy.open_before {m x : List UInt8} (hm : Tidy m) (hx : x <+: 123 :: (m ++ [125]))
    (hne : x ≠ []) (hx' : x ≠ 123 :: (m ++ [125])) :
    (outer outside x).count 125 < (outer outside x).count 123 := by
  rcases List.prefix_cons_iff.mp hx with rfl | ⟨q, rfl, hq⟩
  · exact absurd rfl hne
  · rcases List.prefix_concat_iff.mp hq with rfl | ⟨rest, rfl⟩
    · exact absurd rfl hx'
    · have hle := hm.nested.before (outer outside q) (by
        rw [outer_append]
        exact List.prefix_append _ _)
      rw [outer_outside (by decide), List.count_cons_self, List.count_cons_of_ne (by decide)]
      exact Nat.lt_succ_of_le hle

/-- One object in the text of another begins and ends where that does, unless it is longer. -/
theorem braces_eq_of_prefix {m m' : List UInt8} (hm : Tidy m) (hm' : Tidy m')
    (h : 123 :: (m' ++ [125]) <+: 123 :: (m ++ [125])) : m' = m := by
  by_contra hne
  have hlt := hm.open_before h (List.cons_ne_nil _ _) (by
    intro heq
    exact hne (List.append_cancel_right (List.cons.inj heq).2))
  exact Nat.ne_of_gt hlt hm'.enclosed.whole

/-- An object in front of a stretch without a brace is the only one to begin there. -/
theorem braces_unique {m m' s back : List UInt8} (hm : Tidy m) (hm' : Tidy m') (hback : 125 ∉ back)
    (h : 123 :: (m' ++ [125]) ++ s = 123 :: (m ++ [125]) ++ back) : m' = m ∧ s = back := by
  obtain ⟨rest, hrest⟩ := ends_before (x := 123 :: m') hback h
  obtain rfl := braces_eq_of_prefix hm hm' ⟨rest, hrest.symm⟩
  exact ⟨rfl, List.append_cancel_left h⟩

/-- An object that begins within braces ends within them. -/
theorem Tidy.not_beyond {m m' x y rest : List UInt8} (hm : Tidy m) (hm' : Tidy m')
    (hx : 123 :: (m ++ [125]) = x ++ y) (hy : 123 :: (m' ++ [125]) = y ++ rest)
    (hclosed : outside.after x = outside) : y = [] ∨ rest = [] := by
  by_contra hne
  obtain ⟨hempty, hrest⟩ := not_or.mp hne
  have hopen := hm'.open_before ⟨rest, hy.symm⟩ hempty (by
    intro heq
    rw [heq] at hy
    exact hrest (List.self_eq_append_right.mp hy))
  have hwhole := hm.enclosed.whole
  have hbefore := hm.enclosed.nested.before (outer outside x) (by
    rw [hx, outer_append]
    exact List.prefix_append _ _)
  rw [hx, outer_append, hclosed, List.count_append, List.count_append] at hwhole
  omega

/-- An object that begins behind the first brace of a text, where only the braces around `m`
    follow, ends within those. -/
theorem Tidy.within {p m s m' x z : List UInt8} (hm : Tidy m) (hm' : Tidy m') (hp : Flat p)
    (hs : 123 ∉ outer outside s)
    (heq : x ++ (123 :: (m' ++ [125]) ++ z) = p ++ (123 :: (m ++ [125]) ++ s))
    (hx : outside.after x = outside) :
    ∃ x' z', 123 :: (m ++ [125]) = x' ++ (123 :: (m' ++ [125]) ++ z') ∧
      outside.after x' = outside := by
  -- a brace where texts do not reach shows
  have hshows : ∀ {y w : List UInt8}, outside.after y = outside →
      123 ∈ outer outside (y ++ (123 :: w)) := by
    intro y w hy
    rw [outer_append, hy, outer_outside (by decide)]
    exact List.mem_append_right _ List.mem_cons_self
  have hstart : ∃ x', x = p ++ x' ∧
      123 :: (m ++ [125]) ++ s = x' ++ (123 :: (m' ++ [125]) ++ z) := by
    rcases List.append_eq_append_iff.mp heq with ⟨p', hsplit, hrest⟩ | ⟨x', hsplit, hrest⟩
    · cases p' with
      | nil => exact ⟨[], by rw [hsplit, List.append_nil, List.append_nil], hrest.symm⟩
      | cons c p' =>
        obtain ⟨rfl, -⟩ := List.cons.inj hrest
        exact absurd (hsplit ▸ hshows hx) hp.free
    · exact ⟨x', hsplit, hrest⟩
  obtain ⟨x', rfl, hrest⟩ := hstart
  rw [after_append, hp.tidy.closed] at hx
  rcases List.append_eq_append_iff.mp hrest with ⟨x'', rfl, hbehind⟩ | ⟨inside', hinside, hbehind⟩
  · rw [after_append, (tidy_braces hm).closed] at hx
    exact absurd (hbehind ▸ hshows hx) hs
  · rcases List.append_eq_append_iff.mp hbehind with ⟨z', hends, -⟩ | ⟨rest, hends, hrest⟩
    · exact ⟨x', z', by rw [hinside, hends], hx⟩
    · rcases hm.not_beyond hm' hinside hends hx with rfl | rfl
      · rw [List.nil_append] at hends
        rw [← hends] at hrest
        exact absurd (hrest ▸ hshows (y := []) rfl) hs
      · rw [List.append_nil] at hends
        exact ⟨x', [], by rw [hinside, hends, List.append_nil], hx⟩

/-! ## Writers and readers -/

def Blank (t : List UInt8) : Prop := ∀ c ∈ t, c ∈ bytes " \t\n\r"

instance (t : List UInt8) : Decidable (Blank t) :=
  List.decidableBAll (fun c => c ∈ bytes " \t\n\r") t

/-- What a reader passes over before a document: blanks, and a byte order mark before them. -/
inductive Leading : List UInt8 → Prop
  | blank {gap : List UInt8} : Blank gap → Leading gap
  | marked {gap : List UInt8} : Blank gap → Leading (239 :: 187 :: 191 :: gap)

/-- What a reader accepts behind a document: blanks, and anything behind a null character. -/
inductive Trailing : List UInt8 → Prop
  | blank {gap : List UInt8} : Blank gap → Trailing gap
  | ended {gap : List UInt8} (rest : List UInt8) : Blank gap → Trailing (gap ++ 0 :: rest)

/-- What a reader accepts has the shape of the document it gives, and what is written is read back
    and has the shape of that. A text in it is the one between the quotes, but for its escapes,
    which are not shorter than what they stand for. -/
structure JsonText.Shaped (text : JsonText) (unescape : List UInt8 → String) : Prop where
  reads {raw : List UInt8} {j : Json} : text.parse raw = some j →
    ∃ lead t rest, raw = lead ++ (t ++ rest) ∧ Leading lead ∧ Trailing rest ∧
      Read unescape (.value j) t
  prints {j : Json} : text.Written j → text.encodes j = true →
    Printed unescape (.value j.canon) (bytes (text.dump j))
  readsBack {j : Json} {lead rest : List UInt8} : text.Written j → text.encodes j = true →
    Leading lead → Trailing rest →
    text.parse (lead ++ (bytes (text.dump j) ++ rest)) = some j.canon
  unescape_plain {body : List UInt8} : 92 ∉ body → unescape body = ofBytes body
  length_unescape (body : List UInt8) : (unescape body).length ≤ body.length

theorem Leading.mem (h : Leading t) {c : UInt8} (hc : c ∈ t) :
    c ∈ bytes " \t\n\r" ++ [239, 187, 191] := by
  rw [List.mem_append]
  cases h with
  | blank hgap => exact .inl (hgap c hc)
  | marked hgap =>
    rcases List.mem_append.mp (show c ∈ [239, 187, 191] ++ _ from hc) with hmark | hgap'
    · exact .inr hmark
    · exact .inl (hgap c hgap')

theorem Leading.unquoted (h : Leading t) : 34 ∉ t :=
  fun hc => absurd (h.mem hc) (by decide)

theorem Leading.no_brace (h : Leading t) : 123 ∉ t :=
  fun hc => absurd (h.mem hc) (by decide)

variable {text : JsonText}

/-- The text of an object, and what is around it. -/
theorem JsonText.Shaped.object (hs : text.Shaped unescape) {raw : List UInt8}
    {fields : List (String × Json)} (h : text.parse raw = some (.object fields)) :
    ∃ lead m rest, raw = lead ++ (123 :: (m ++ [125]) ++ rest) ∧ Leading lead ∧ Trailing rest ∧
      Tidy m ∧ Read unescape (.value (.object fields)) (123 :: (m ++ [125])) := by
  obtain ⟨lead, t, rest, hraw, hlead, hrest, hread⟩ := hs.reads h
  obtain ⟨_, m, rfl, -, hm⟩ := hread.object_eq
  exact ⟨lead, m, rest, hraw, hlead, hrest, hm.tidy, hread⟩

/-- A text in a document is shorter than the document. -/
theorem JsonText.Shaped.length_lt (hs : text.Shaped unescape) {s : String} {j : Json}
    (hj : text.parse (bytes s) = some j) {s' : String} (hs' : s' ∈ j.strings) :
    s'.length < s.length := by
  obtain ⟨lead, t, rest, hraw, -, -, hread⟩ := hs.reads hj
  obtain ⟨body, hbody, rfl⟩ := List.mem_map.mp ((strings_read hread).subset hs')
  have hlt := length_of_mem_literals hbody
  have hle := hs.length_unescape body
  have hlength := congrArg List.length hraw
  rw [List.length_append, List.length_append, bytes, List.length_map, String.length_toList]
    at hlength
  rw [List.length_nil] at hlt
  omega

end TruellmEngine.Lib
