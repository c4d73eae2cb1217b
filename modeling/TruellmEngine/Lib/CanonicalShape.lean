/-
  Canonical text has the shape of a document.

  `readValue_shape`: what the reader takes for a document is shaped as one. `lenient` also passes
  over blanks, as readers of documents do, and `lenient_shaped` is what is asked of it.
-/
import TruellmEngine.Lib.CanonicalJson
import TruellmEngine.Lib.JsonShape
import TruellmEngine.Lib.SepList

namespace TruellmEngine.Lib.CanonicalJson

/-! ## Characters and bytes -/

def encode (cs : List Char) : List UInt8 := cs.map fun c => c.toNat.toUInt8

/-- Each character stands for a byte. -/
def Latin (cs : List Char) : Prop := ∀ c ∈ cs, c.toNat < 256

theorem encode_append (cs ds : List Char) : encode (cs ++ ds) = encode cs ++ encode ds :=
  List.map_append

theorem toNat_ofNat_byte (b : UInt8) : (Char.ofNat b.toNat).toNat = b.toNat := by
  have hall : ∀ n < 256, (Char.ofNat n).toNat = n := by decide +kernel
  exact hall b.toNat b.toNat_lt

theorem latin_chars (raw : List UInt8) : Latin (chars raw) := by
  intro c hc
  obtain ⟨b, -, rfl⟩ := List.mem_map.mp hc
  rw [toNat_ofNat_byte]
  exact b.toNat_lt

theorem encode_chars (raw : List UInt8) : encode (chars raw) = raw := by
  unfold encode chars
  rw [List.map_map]
  have hsame : ∀ b ∈ raw, ((fun c : Char => c.toNat.toUInt8) ∘ fun b : UInt8 =>
      Char.ofNat b.toNat) b = b := by
    intro b _
    show (Char.ofNat b.toNat).toNat.toUInt8 = b
    rw [toNat_ofNat_byte]
    exact UInt8.ofNat_toNat
  rw [List.map_congr_left hsame, List.map_id']

theorem chars_encode {cs : List Char} (h : Latin cs) : chars (encode cs) = cs :=
  chars_map h

/-- A character is the byte that stands for it. -/
theorem byte_ne {c d : Char} (hc : c.toNat < 256) (hd : d.toNat < 256) (h : c ≠ d) :
    c.toNat.toUInt8 ≠ d.toNat.toUInt8 := by
  intro heq
  have hnat : c.toNat.toUInt8.toNat = d.toNat.toUInt8.toNat := congrArg UInt8.toNat heq
  unfold Nat.toUInt8 at hnat
  rw [UInt8.toNat_ofNat', UInt8.toNat_ofNat', Nat.mod_eq_of_lt hc, Nat.mod_eq_of_lt hd] at hnat
  exact h (Char.toNat_inj.mp hnat)

/-! ## Texts -/

/-- What the reader takes for the characters between two quotes. -/
def unescaped (body : List UInt8) : String :=
  match readString (chars body ++ ['"']) with
  | some (s, []) => String.ofList s
  | _ => ofBytes body

theorem readString_short {e : Char} (he : e ≠ 'u') (cs : List Char) :
    readString ('\\' :: e :: cs) =
      (unescape e).bind fun c => (readString cs).map fun s => (c :: s.1, s.2) := by
  rw [readString]
  intro _ _ _ hu _
  exact he hu

theorem readString_plain {c : Char} (hquote : c ≠ '"') (hback : c ≠ '\\') (cs : List Char) :
    readString (c :: cs) = (readString cs).map fun s => (c :: s.1, s.2) := by
  rw [readString]
  · exact hquote
  · intro _ _ _ h _
    exact hback h
  · intro _ _ h _
    exact hback h

/-- What is read as one character, and a text behind it. -/
theorem body_cons {cs d s rest : List Char} {c : Char}
    (hstep : ∀ ts, readString (d ++ ts) = (readString ts).map fun s => (c :: s.1, s.2))
    (hbody : ∀ body, Body (encode body) → Body (encode (d ++ body)))
    (hpos : d ≠ [])
    (ih : ∀ {s}, readString cs = some (s, rest) → ∃ body, cs = body ++ '"' :: rest ∧
      Body (encode body) ∧ readString (body ++ ['"']) = some (s, []) ∧ s.length ≤ body.length)
    (h : readString (d ++ cs) = some (s, rest)) : ∃ body, d ++ cs = body ++ '"' :: rest ∧
      Body (encode body) ∧ readString (body ++ ['"']) = some (s, []) ∧ s.length ≤ body.length := by
  rw [hstep] at h
  obtain ⟨⟨s', rest'⟩, hread, heq⟩ := Option.map_eq_some_iff.mp h
  cases heq
  obtain ⟨body, rfl, hshape, hagain, hlength⟩ := ih hread
  refine ⟨d ++ body, (List.append_assoc _ _ _).symm, hbody body hshape, ?_, ?_⟩
  · rw [List.append_assoc, hstep, hagain]
    rfl
  · have hd := List.length_pos_iff.mpr hpos
    show (c :: s').length ≤ (d ++ body).length
    rw [List.length_append, List.length_cons]
    omega

theorem digit?_ne {a : Char} {d : ℕ} (h : digit? a = some d) : a ≠ '"' ∧ a ≠ '\\' := by
  have hquote : digit? '"' = none := by decide
  have hback : digit? '\\' = none := by decide
  constructor
  · rintro rfl
    exact Option.some_ne_none d (h.symm.trans hquote)
  · rintro rfl
    exact Option.some_ne_none d (h.symm.trans hback)

/-- The reader stops at the quote that ends a text. -/
theorem readString_eq {cs s rest : List Char} (hlow : Latin cs)
    (h : readString cs = some (s, rest)) : ∃ body, cs = body ++ '"' :: rest ∧
      Body (encode body) ∧ readString (body ++ ['"']) = some (s, []) ∧ s.length ≤ body.length := by
  have hplain : ∀ {c : Char} {body : List UInt8}, c.toNat < 256 → c ≠ '"' → c ≠ '\\' →
      Body body → Body (c.toNat.toUInt8 :: body) := by
    intro c body hc hquote hback hbody
    exact .plain (byte_ne hc (by decide) hquote) (byte_ne hc (by decide) hback) hbody
  induction cs using readString.induct generalizing s with
  | case1 => cases h
  | case2 cs =>
    cases h
    exact ⟨[], rfl, .nil, rfl, Nat.le_refl _⟩
  | case3 a b cs ih =>
    have hlow' : Latin cs := fun c hc => hlow c (by simp [hc])
    rw [readString] at h
    obtain ⟨high, hhigh, h⟩ := Option.bind_eq_some_iff.mp h
    obtain ⟨low, hlow'', h⟩ := Option.bind_eq_some_iff.mp h
    have hstep : ∀ ts, readString (['\\', 'u', '0', '0', a, b] ++ ts) =
        (readString ts).map fun s => (Char.ofNat (16 * high + low) :: s.1, s.2) := by
      intro ts
      show readString ('\\' :: 'u' :: '0' :: '0' :: a :: b :: ts) = _
      rw [readString, hhigh, Option.bind_some, hlow'', Option.bind_some]
    refine body_cons hstep (fun body hbody => ?_) (List.cons_ne_nil _ _) (ih hlow') ?_
    · have ha := digit?_ne hhigh
      have hb := digit?_ne hlow''
      refine .escape _ (.plain (by decide) (by decide) (.plain (by decide) (by decide) ?_))
      exact hplain (hlow a (by simp)) ha.1 ha.2 (hplain (hlow b (by simp)) hb.1 hb.2 hbody)
    · rw [hstep]
      exact h
  | case4 e cs hu ih =>
    have hlow' : Latin cs := fun c hc => hlow c (by simp [hc])
    have he : e ≠ 'u' := by
      rintro rfl
      have hnone : unescape 'u' = none := by decide
      rw [readString, hnone] at h
      · cases h
      · exact fun a b cs' _ h => hu a b cs' rfl h
    rw [readString_short he] at h
    obtain ⟨c, hc, h⟩ := Option.bind_eq_some_iff.mp h
    have hstep : ∀ ts, readString (['\\', e] ++ ts) =
        (readString ts).map fun s => (c :: s.1, s.2) := by
      intro ts
      show readString ('\\' :: e :: ts) = _
      rw [readString_short he, hc, Option.bind_some]
    refine body_cons hstep (fun body hbody => .escape _ hbody) (List.cons_ne_nil _ _) (ih hlow') ?_
    rw [hstep]
    exact h
  | case5 c cs hquote hu hback ih =>
    have hlow' : Latin cs := fun d hd => hlow d (List.mem_cons_of_mem _ hd)
    have hback' : c ≠ '\\' := by
      rintro rfl
      cases cs with
      | nil => cases h
      | cons e cs => exact hback e cs rfl rfl
    have hstep := readString_plain hquote hback'
    exact body_cons (d := [c]) hstep (fun body hbody => hplain (hlow c List.mem_cons_self) hquote
      hback' hbody) (List.cons_ne_nil _ _) (ih hlow') h

theorem unescaped_encode {body s : List Char} (hlow : Latin body)
    (h : readString (body ++ ['"']) = some (s, [])) :
    unescaped (encode body) = String.ofList s := by
  unfold unescaped
  rw [chars_encode hlow, h]

theorem readString_no_escape {cs s : List Char} (hback : '\\' ∉ cs)
    (h : readString (cs ++ ['"']) = some (s, [])) : s = cs := by
  induction cs generalizing s with
  | nil =>
    cases h
    rfl
  | cons c cs ih =>
    obtain ⟨hc, hcs⟩ := List.ne_and_not_mem_of_not_mem_cons hback
    rw [List.cons_append] at h
    by_cases hquote : c = '"'
    · subst hquote
      rw [readString, Option.some.injEq, Prod.mk.injEq] at h
      exact absurd h.2 (by simp)
    · rw [readString_plain hquote hc.symm] at h
      obtain ⟨⟨s', rest⟩, hread, heq⟩ := Option.map_eq_some_iff.mp h
      cases heq
      rw [ih hcs hread]

theorem unescaped_plain {body : List UInt8} (h : 92 ∉ body) : unescaped body = ofBytes body := by
  have hback : '\\' ∉ chars body := by
    intro hmem
    obtain ⟨b, hb, heq⟩ := List.mem_map.mp hmem
    have hnat : b.toNat = (92 : UInt8).toNat :=
      (toNat_ofNat_byte b).symm.trans (congrArg Char.toNat heq)
    exact h (UInt8.toNat_inj.mp hnat ▸ hb)
  unfold unescaped
  split
  · rename_i s hread
    rw [readString_no_escape hback hread]
    rfl
  · rfl

theorem length_unescaped (body : List UInt8) : (unescaped body).length ≤ body.length := by
  unfold unescaped
  split
  · rename_i s hread
    have hlow : Latin (chars body ++ ['"']) := by
      intro c hc
      rcases List.mem_append.mp hc with hc | hc
      · exact latin_chars body c hc
      · rw [List.mem_singleton.mp hc]
        decide
    obtain ⟨body', hsplit, -, -, hle⟩ := readString_eq hlow hread
    have hlength := congrArg List.length hsplit
    rw [List.length_append, List.length_append, chars, List.length_map] at hlength
    rw [String.length_ofList]
    exact (Nat.add_right_cancel hlength) ▸ hle
  · unfold ofBytes
    rw [String.length_ofList, List.length_map]

/-! ## Documents -/

variable {kept : List (String × Json) → List (String × Json) → Prop}

/-- What is read with some fuel has the shape of what it is read as. -/
structure ReadsShape (kept : List (String × Json) → List (String × Json) → Prop) (n : ℕ) :
    Prop where
  value {cs j rest} : Latin cs → readValue n cs = some (j, rest) →
    ∃ t, cs = t ++ rest ∧ Shape unescaped kept (.value j) (encode t)
  items {cs xs rest} : Latin cs → readItems n cs = some (xs, rest) →
    ∃ t, cs = t ++ ']' :: rest ∧ Shape unescaped kept (.items xs) (encode t)
  field {cs f rest} : Latin cs → readField n cs = some (f, rest) →
    ∃ body s, cs = '"' :: (body ++ '"' :: ':' :: (s ++ rest)) ∧ Body (encode body) ∧
      f.1 = unescaped (encode body) ∧ Shape unescaped kept (.value f.2) (encode s)
  fields {cs fs rest} : Latin cs → readFields n cs = some (fs, rest) →
    ∃ t, cs = t ++ '}' :: rest ∧ Shape unescaped kept (.fields fs) (encode t)

theorem behind_eq {word cs rest : List Char} (h : behind word cs = some rest) :
    cs = word ++ rest := by
  unfold behind at h
  split at h
  · rename_i htake
    cases h
    calc cs = cs.take word.length ++ cs.drop word.length := (List.take_append_drop _ _).symm
      _ = word ++ cs.drop word.length := by rw [htake]
  · cases h

theorem latin_right {s t : List Char} (h : Latin (s ++ t)) : Latin t :=
  fun c hc => h c (List.mem_append_right _ hc)

theorem latin_left {s t : List Char} (h : Latin (s ++ t)) : Latin s :=
  fun c hc => h c (List.mem_append_left _ hc)

theorem noGap : ∀ c ∈ encode [], c ∈ gapChars := fun _ hc => absurd hc List.not_mem_nil

/-- Digits are characters of scalars. -/
theorem digit_scalar {c : Char} (h : c.isDigit = true) : c.toNat.toUInt8 ∈ scalarChars := by
  have hall : ∀ n < 58, 48 ≤ n → n.toUInt8 ∈ scalarChars := by decide +kernel
  unfold Char.isDigit at h
  rw [Bool.and_eq_true, decide_eq_true_eq, decide_eq_true_eq] at h
  have hlow : 48 ≤ c.toNat := h.1
  have hhigh : c.toNat ≤ 57 := h.2
  exact hall c.toNat (by omega) hlow

theorem readNat_eq {cs rest : List Char} {m : ℕ} (h : readNat cs = some (m, rest)) :
    ∃ t, cs = t ++ rest ∧ ∀ b ∈ encode t, b ∈ scalarChars := by
  unfold readNat at h
  split at h
  · cases h
  · cases h
    refine ⟨cs.takeWhile Char.isDigit, List.takeWhile_append_dropWhile.symm, fun b hb => ?_⟩
    obtain ⟨c, hc, rfl⟩ := List.mem_map.mp hb
    exact digit_scalar (List.all_eq_true.mp List.all_takeWhile c hc)

theorem readArray_shape {n : ℕ} (ih : ReadsShape kept n) {cs rest : List Char} {j : Json}
    (hlow : Latin cs) (h : readArray (readValue n cs) (readItems n) cs = some (j, rest)) :
    ∃ t, '[' :: cs = t ++ rest ∧ Shape unescaped kept (.value j) (encode t) := by
  unfold readArray at h
  split at h
  · rename_i x hx
    obtain ⟨xs, hxs, heq⟩ := Option.map_eq_some_iff.mp h
    cases heq
    obtain ⟨s, rfl, hs⟩ := ih.value hlow hx
    obtain ⟨t, ht, hitems⟩ := ih.items (latin_right hlow) hxs
    refine ⟨'[' :: (s ++ t ++ [']']), ?_, ?_⟩
    · rw [ht]
      simp only [List.append_assoc, List.cons_append, List.nil_append]
    · show Shape unescaped kept _ (91 :: encode (s ++ t ++ [']']))
      rw [encode_append, encode_append]
      exact .array (Shape.item noGap hs hitems)
  · obtain ⟨rest', hrest, heq⟩ := Option.map_eq_some_iff.mp h
    cases heq
    rw [behind_eq hrest]
    exact ⟨['[', ']'], rfl, .array (.noItems noGap)⟩

/-- A field, and fields behind it. -/
theorem field_shape {gap body s t : List Char} {f : String × Json} {fs : List (String × Json)}
    (hgap : ∀ c ∈ encode gap, c ∈ gapChars) (hbody : Body (encode body))
    (hkey : f.1 = unescaped (encode body)) (hs : Shape unescaped kept (.value f.2) (encode s))
    (ht : Shape unescaped kept (.fields fs) (encode t)) :
    Shape unescaped kept (.fields (f :: fs))
      (encode (gap ++ '"' :: (body ++ '"' :: ':' :: (s ++ t)))) := by
  have heq : encode (gap ++ '"' :: (body ++ '"' :: ':' :: (s ++ t))) =
      encode gap ++ (literal (encode body) ++ ([58] ++ (encode s ++ encode t))) := by
    rw [encode_append]
    congr 1
    show 34 :: encode (body ++ '"' :: ':' :: (s ++ t)) = 34 :: (encode body ++ [34] ++ _)
    rw [encode_append, List.append_assoc]
    show 34 :: (encode body ++ 34 :: 58 :: encode (s ++ t)) = _
    rw [encode_append]
    rfl
  obtain ⟨key, v⟩ := f
  cases hkey
  rw [heq]
  exact .field hgap hbody (by decide +kernel) hs ht

theorem readObject_shape (hkept : ∀ fs, kept fs fs) {n : ℕ} (ih : ReadsShape kept n)
    {cs rest : List Char} {j : Json} (hlow : Latin cs)
    (h : readObject (readField n cs) (readFields n) cs = some (j, rest)) :
    ∃ t, '{' :: cs = t ++ rest ∧ Shape unescaped kept (.value j) (encode t) := by
  unfold readObject at h
  split at h
  · rename_i f hf
    obtain ⟨fs, hfs, heq⟩ := Option.map_eq_some_iff.mp h
    cases heq
    obtain ⟨body, s, rfl, hbody, hkey, hs⟩ := ih.field hlow hf
    have hlow' : Latin (body ++ '"' :: ':' :: (s ++ f.2)) := latin_right (s := ['"']) hlow
    obtain ⟨t, ht, hfields⟩ :=
      ih.fields (latin_right (latin_right (s := ['"', ':']) (latin_right hlow'))) hfs
    refine ⟨'\x7b' :: ('"' :: (body ++ '"' :: ':' :: (s ++ t)) ++ ['\x7d']), ?_, ?_⟩
    · rw [ht]
      simp only [List.append_assoc, List.cons_append, List.nil_append]
    · show Shape unescaped kept _
        (123 :: encode ('"' :: (body ++ '"' :: ':' :: (s ++ t)) ++ ['\x7d']))
      rw [encode_append]
      exact .object (hkept _) (field_shape noGap hbody hkey hs hfields)
  · obtain ⟨rest', hrest, heq⟩ := Option.map_eq_some_iff.mp h
    cases heq
    rw [behind_eq hrest]
    exact ⟨['{', '}'], rfl, .object (t := []) (hkept [])
      (.noFields fun c hc => absurd hc List.not_mem_nil)⟩

/-- What a word or a number is read from is text of a scalar. -/
theorem scalar_shape {j : Json} {t : List Char} (hj : j.isScalar = true)
    (ht : ∀ b ∈ encode t, b ∈ scalarChars) : Shape unescaped kept (.value j) (encode t) :=
  .scalar hj ht

theorem word_shape {word cs rest : List Char} {c d : Char} {v j : Json} (hc : c = d)
    (hchars : ∀ b ∈ encode (d :: word), b ∈ scalarChars) (hv : v.isScalar = true)
    (h : ((behind word cs).map fun rest => (v, rest)) = some (j, rest)) :
    ∃ t, c :: cs = t ++ rest ∧ Shape unescaped kept (.value j) (encode t) := by
  obtain ⟨rest', hrest, heq⟩ := Option.map_eq_some_iff.mp h
  cases heq
  exact ⟨d :: word, by rw [behind_eq hrest, hc]; rfl, scalar_shape hv hchars⟩

theorem readValue_step (hkept : ∀ fs, kept fs fs) {n : ℕ} (ih : ReadsShape kept n)
    {cs rest : List Char} {j : Json} (hlow : Latin cs)
    (h : readValue (n + 1) cs = some (j, rest)) :
    ∃ t, cs = t ++ rest ∧ Shape unescaped kept (.value j) (encode t) := by
  cases cs with
  | nil => cases h
  | cons c cs =>
    have hlow' : Latin cs := latin_right (s := [c]) hlow
    rw [readValue] at h
    by_cases hnull : c = 'n'
    · rw [if_pos hnull] at h
      exact word_shape hnull (by decide +kernel) rfl h
    rw [if_neg hnull] at h
    by_cases htrue : c = 't'
    · rw [if_pos htrue] at h
      exact word_shape htrue (by decide +kernel) rfl h
    rw [if_neg htrue] at h
    by_cases hfalse : c = 'f'
    · rw [if_pos hfalse] at h
      exact word_shape hfalse (by decide +kernel) rfl h
    rw [if_neg hfalse] at h
    by_cases hquote : c = '"'
    · rw [if_pos hquote] at h
      obtain ⟨⟨s, rest'⟩, hread, heq⟩ := Option.map_eq_some_iff.mp h
      cases heq
      obtain ⟨body, rfl, hbody, hagain, -⟩ := readString_eq hlow' hread
      refine ⟨'"' :: (body ++ ['"']), ?_, ?_⟩
      · rw [hquote]
        simp only [List.append_assoc, List.cons_append, List.nil_append]
      · rw [← unescaped_encode (latin_left hlow') hagain]
        show Shape unescaped kept _ (34 :: encode (body ++ ['"']))
        rw [encode_append]
        exact .text hbody
    rw [if_neg hquote] at h
    by_cases hminus : c = '-'
    · rw [if_pos hminus] at h
      obtain ⟨⟨m, rest'⟩, hread, heq⟩ := Option.map_eq_some_iff.mp h
      cases heq
      obtain ⟨t, rfl, ht⟩ := readNat_eq hread
      refine ⟨'-' :: t, by rw [hminus]; rfl, scalar_shape rfl ?_⟩
      exact List.forall_mem_cons.mpr ⟨by decide, ht⟩
    rw [if_neg hminus] at h
    by_cases hbracket : c = '['
    · rw [if_pos hbracket] at h
      rw [hbracket]
      exact readArray_shape ih hlow' h
    rw [if_neg hbracket] at h
    by_cases hbrace : c = '\x7b'
    · rw [if_pos hbrace] at h
      rw [hbrace]
      exact readObject_shape hkept ih hlow' h
    rw [if_neg hbrace] at h
    obtain ⟨⟨m, rest'⟩, hread, heq⟩ := Option.map_eq_some_iff.mp h
    cases heq
    obtain ⟨t, ht, hchars⟩ := readNat_eq hread
    exact ⟨t, ht, scalar_shape rfl hchars⟩

/-- A list ends, or has one item more behind a comma. -/
theorem readItems_step {n : ℕ} {cs rest : List Char} {xs : List Json}
    (h : readItems n cs = some (xs, rest)) : (xs = [] ∧ cs = ']' :: rest) ∨
      ∃ k ds x xs', n = k + 1 ∧ cs = ',' :: ds ∧ readValue k ds = some x ∧
        readItems k x.2 = some (xs', rest) ∧ xs = x.1 :: xs' := by
  unfold readItems at h
  split at h
  · obtain ⟨x, hx, h⟩ := Option.bind_eq_some_iff.mp h
    obtain ⟨xs', hxs, heq⟩ := Option.map_eq_some_iff.mp h
    cases heq
    exact .inr ⟨_, _, x, xs'.1, rfl, rfl, hx, hxs, rfl⟩
  · cases h
    exact .inl ⟨rfl, rfl⟩
  · cases h

theorem readFields_step {n : ℕ} {cs rest : List Char} {fs : List (String × Json)}
    (h : readFields n cs = some (fs, rest)) : (fs = [] ∧ cs = '\x7d' :: rest) ∨
      ∃ k ds f fs', n = k + 1 ∧ cs = ',' :: ds ∧ readField k ds = some f ∧
        readFields k f.2 = some (fs', rest) ∧ fs = f.1 :: fs' := by
  unfold readFields at h
  split at h
  · obtain ⟨f, hf, h⟩ := Option.bind_eq_some_iff.mp h
    obtain ⟨fs', hfs, heq⟩ := Option.map_eq_some_iff.mp h
    cases heq
    exact .inr ⟨_, _, f, fs'.1, rfl, rfl, hf, hfs, rfl⟩
  · cases h
    exact .inl ⟨rfl, rfl⟩
  · cases h

theorem readField_step {n : ℕ} {cs rest : List Char} {f : String × Json}
    (h : readField n cs = some (f, rest)) : ∃ k ds key rest', n = k + 1 ∧ cs = '"' :: ds ∧
      readString ds = some (key, ':' :: rest') ∧ readValue k rest' = some (f.2, rest) ∧
      f.1 = String.ofList key := by
  unfold readField at h
  split at h
  · obtain ⟨key, hkey, h⟩ := Option.bind_eq_some_iff.mp h
    obtain ⟨rest', hrest, h⟩ := Option.bind_eq_some_iff.mp h
    obtain ⟨v, hv, heq⟩ := Option.map_eq_some_iff.mp h
    cases heq
    exact ⟨_, _, key.1, rest', rfl, rfl,
      hkey.trans (congrArg some (Prod.ext rfl (behind_eq hrest))), hv, rfl⟩
  · cases h

theorem comma_gap : ∀ c ∈ encode [','], c ∈ gapChars := by decide +kernel

theorem readsShape (hkept : ∀ fs, kept fs fs) (n : ℕ) : ReadsShape kept n := by
  -- each reader calls the others with less fuel
  have hstep : ∀ n, (∀ k, n = k + 1 → ReadsShape kept k) → ReadsShape kept n := by
    intro n ih
    constructor
    · intro cs j rest hlow h
      cases n with
      | zero => cases h
      | succ n => exact readValue_step hkept (ih n rfl) hlow h
    · intro cs xs rest hlow h
      rcases readItems_step h with ⟨rfl, rfl⟩ | ⟨k, ds, x, xs', hn, rfl, hx, hxs, rfl⟩
      · exact ⟨[], rfl, .noItems noGap⟩
      · have hds : Latin ds := latin_right (s := [',']) hlow
        obtain ⟨s, rfl, hs⟩ := (ih k hn).value hds hx
        obtain ⟨t, ht, hitems⟩ := (ih k hn).items (latin_right hds) hxs
        refine ⟨',' :: (s ++ t), ?_, ?_⟩
        · rw [ht]
          simp only [List.append_assoc, List.cons_append]
        · show Shape unescaped kept _ (44 :: encode (s ++ t))
          rw [encode_append]
          exact Shape.item comma_gap hs hitems
    · intro cs f rest hlow h
      obtain ⟨k, ds, key, rest', hn, rfl, hkey, hv, hf⟩ := readField_step h
      have hds : Latin ds := latin_right (s := ['"']) hlow
      obtain ⟨body, rfl, hbody, hagain, -⟩ := readString_eq hds hkey
      obtain ⟨s, hs, hvalue⟩ :=
        (ih k hn).value (latin_right (s := ['"', ':']) (latin_right hds)) hv
      refine ⟨body, s, ?_, hbody, ?_, hvalue⟩
      · rw [hs]
      · rw [unescaped_encode (latin_left hds) hagain, hf]
    · intro cs fs rest hlow h
      rcases readFields_step h with ⟨rfl, rfl⟩ | ⟨k, ds, f, fs', hn, rfl, hf, hfs, rfl⟩
      · exact ⟨[], rfl, .noFields noGap⟩
      · have hds : Latin ds := latin_right (s := [',']) hlow
        obtain ⟨body, s, rfl, hbody, hkey, hs⟩ := (ih k hn).field hds hf
        have hmore : Latin (body ++ '"' :: ':' :: (s ++ f.2)) := latin_right (s := ['"']) hds
        obtain ⟨t, ht, hfields⟩ :=
          (ih k hn).fields (latin_right (latin_right (s := ['"', ':']) (latin_right hmore))) hfs
        refine ⟨[','] ++ '"' :: (body ++ '"' :: ':' :: (s ++ t)), ?_,
          field_shape comma_gap hbody hkey hs hfields⟩
        rw [ht]
        simp only [List.append_assoc, List.cons_append, List.nil_append]
  induction n with
  | zero => exact hstep 0 fun k hk => absurd hk (Nat.succ_ne_zero k).symm
  | succ n ih => exact hstep (n + 1) fun k hk => Nat.succ.inj hk ▸ ih

theorem parse_shape (hkept : ∀ fs, kept fs fs) {raw : List UInt8} {j : Json}
    (h : parse raw = some j) : Shape unescaped kept (.value j) raw := by
  unfold parse at h
  split at h
  · rename_i j' hread
    split at h
    · cases h
      obtain ⟨t, ht, hshape⟩ := (readsShape hkept _).value (latin_chars raw) hread
      rw [List.append_nil] at ht
      rw [← ht, encode_chars] at hshape
      exact hshape
    · cases h
  · cases h

/-! ## Passing over blanks -/

def isBlank (c : UInt8) : Bool := c ∈ bytes " \t\n\r"

def dropMark : List UInt8 → List UInt8
  | 239 :: 187 :: 191 :: t => t
  | t => t

/-- Up to a null character, without the blanks at both ends. -/
def trimmed (raw : List UInt8) : List UInt8 := trim isBlank ((dropMark raw).takeWhile (· ≠ 0))

/-- A reader that passes over blanks. -/
def lenient : JsonText where
  parse raw := parse (trimmed raw)
  dump := canonical.dump
  encodes := plain

theorem blank_iff {t : List UInt8} : Blank t ↔ ∀ c ∈ t, isBlank c = true :=
  forall₂_congr fun _ _ => decide_eq_true_iff.symm

/-- What is behind a null character is accepted. -/
theorem takeWhile_trailing {t gap : List UInt8} (hgap : Blank gap) :
    Trailing (gap ++ t.dropWhile (· ≠ 0)) := by
  cases hdrop : t.dropWhile (· ≠ 0) with
  | nil =>
    rw [List.append_nil]
    exact .blank hgap
  | cons c rest =>
    have hc := List.head?_dropWhile_not (· ≠ (0 : UInt8)) t
    rw [hdrop] at hc
    have hzero : c = 0 := by simpa using hc
    rw [hzero]
    exact .ended rest hgap

/-- What is trimmed away is passed over. -/
theorem trimmed_eq (raw : List UInt8) :
    ∃ lead rest, raw = lead ++ (trimmed raw ++ rest) ∧ Leading lead ∧ Trailing rest := by
  obtain ⟨gap, gap', htake, hgap, hgap'⟩ := trim_split isBlank ((dropMark raw).takeWhile (· ≠ 0))
  rw [← blank_iff] at hgap hgap'
  have hbehind : dropMark raw =
      gap ++ (trimmed raw ++ (gap' ++ (dropMark raw).dropWhile (· ≠ 0))) :=
    calc dropMark raw
        = (dropMark raw).takeWhile (· ≠ 0) ++ (dropMark raw).dropWhile (· ≠ 0) :=
          List.takeWhile_append_dropWhile.symm
      _ = gap ++ (trimmed raw ++ gap') ++ (dropMark raw).dropWhile (· ≠ 0) :=
          congrArg (· ++ (dropMark raw).dropWhile (· ≠ 0)) htake
      _ = gap ++ (trimmed raw ++ (gap' ++ (dropMark raw).dropWhile (· ≠ 0))) := by
          simp only [List.append_assoc]
  have hmark : raw = dropMark raw ∨ raw = 239 :: 187 :: 191 :: dropMark raw := by
    unfold dropMark
    split
    · exact .inr rfl
    · exact .inl rfl
  rcases hmark with hraw | hraw
  · exact ⟨gap, _, hraw.trans hbehind, .blank hgap, takeWhile_trailing hgap'⟩
  · exact ⟨239 :: 187 :: 191 :: gap, _, hraw.trans (congrArg (239 :: 187 :: 191 :: ·) hbehind),
      .marked hgap, takeWhile_trailing hgap'⟩

/-- A text that can stand between blanks. -/
structure Standing (t : List UInt8) : Prop where
  nonempty : t ≠ []
  head : ∀ c ∈ t.head?, isBlank c = false ∧ c ≠ 239
  last : ∀ c ∈ t.getLast?, isBlank c = false
  plain : ∀ c ∈ t, c ≠ 0

theorem Standing.trim_around {gap t gap' : List UInt8} (hgap : Blank gap) (ht : Standing t)
    (hgap' : Blank gap') : trim isBlank (gap ++ (t ++ gap')) = t :=
  Lib.trim_around (blank_iff.mp hgap) (blank_iff.mp hgap') (fun c hc => (ht.head c hc).1) ht.last

theorem dropMark_eq {t : List UInt8} (h : ∀ c ∈ t.head?, c ≠ 239) : dropMark t = t := by
  unfold dropMark
  split
  · exact absurd rfl (h 239 rfl)
  · rfl

/-- A reader finds the text in what it passes over. -/
theorem trimmed_around {lead t rest : List UInt8} (hlead : Leading lead) (ht : Standing t)
    (hrest : Trailing rest) : trimmed (lead ++ (t ++ rest)) = t := by
  have htake : ∀ {gap : List UInt8}, Blank gap →
      trim isBlank ((gap ++ (t ++ rest)).takeWhile (· ≠ 0)) = t := by
    intro gap hgap
    have hnull : ∀ {s : List UInt8}, Blank s → ∀ c ∈ s, decide (c ≠ 0) = true := by
      intro s hs c hc
      rw [decide_eq_true_eq]
      rintro rfl
      exact absurd (hs 0 hc) (by decide)
    have hplain : ∀ c ∈ t, decide (c ≠ 0) = true := fun c hc => decide_eq_true (ht.plain c hc)
    rw [List.takeWhile_append_of_pos (hnull hgap), List.takeWhile_append_of_pos hplain]
    cases hrest with
    | blank hgap' =>
      rw [← List.append_nil rest, List.takeWhile_append_of_pos (hnull hgap'), List.takeWhile_nil,
        List.append_nil]
      exact ht.trim_around hgap hgap'
    | ended more hgap' =>
      rw [List.takeWhile_append_of_pos (hnull hgap'), List.takeWhile_cons_of_neg (by decide),
        List.append_nil]
      exact ht.trim_around hgap hgap'
  unfold trimmed
  cases hlead with
  | marked hgap => exact htake hgap
  | blank hgap =>
    have hmark : dropMark (lead ++ (t ++ rest)) = lead ++ (t ++ rest) := by
      obtain ⟨c, t, rfl⟩ := List.exists_cons_of_ne_nil ht.nonempty
      apply dropMark_eq
      intro d hd
      cases lead with
      | nil => exact (ht.head d hd).2
      | cons e lead =>
        cases Option.mem_some_iff.mp hd
        rintro rfl
        exact absurd (hgap 239 List.mem_cons_self) (by decide)
    rw [hmark]
    exact htake hgap

/-- A document begins and ends in characters that are no blanks. -/
theorem shape_ends {j : Json} {t : List UInt8} (h : Shape unescaped kept (.value j) t)
    (c : UInt8) (hc : c ∈ t.head? ∨ c ∈ t.getLast?) : isBlank c = false := by
  have hscalar : ∀ c ∈ scalarChars, isBlank c = false := by decide +kernel
  have hbracket : ∀ {l r : UInt8} {s : List UInt8}, isBlank l = false → isBlank r = false →
      c ∈ (l :: (s ++ [r])).head? ∨ c ∈ (l :: (s ++ [r])).getLast? → isBlank c = false := by
    intro l r s hl hr hc
    rcases hc with hc | hc
    · cases Option.mem_some_iff.mp hc
      exact hl
    · rw [← List.cons_append, List.getLast?_concat] at hc
      cases Option.mem_some_iff.mp hc
      exact hr
  cases h with
  | scalar _ hchars =>
    rcases hc with hc | hc
    · exact hscalar c (hchars c (List.mem_of_mem_head? hc))
    · exact hscalar c (hchars c (List.mem_of_getLast? hc))
  | text _ => exact hbracket (by decide) (by decide) hc
  | array _ => exact hbracket (by decide) (by decide) hc
  | object _ _ => exact hbracket (by decide) (by decide) hc

theorem standing_print {j : Json} (hplain : plain j = true) (hordered : ordered j = true) :
    Standing (bytes (String.ofList (print j))) := by
  have hshape : Shape unescaped Eq (.value j.canon) _ :=
    parse_shape (fun _ => rfl) (parse_print hplain hordered)
  have hbytes : bytes (String.ofList (print j)) = encode (print j) := by
    unfold bytes
    rw [String.toList_ofList]
    rfl
  have hlow : ∀ c ∈ bytes (String.ofList (print j)), c ≠ 0 ∧ c ≠ 239 := by
    have hall : ∀ n < 128, 32 ≤ n → n.toUInt8 ≠ 0 ∧ n.toUInt8 ≠ 239 := by decide +kernel
    intro b hb
    rw [hbytes] at hb
    obtain ⟨c, hc, rfl⟩ := List.mem_map.mp hb
    have hprintable := printable_print j hplain c hc
    exact hall c.toNat hprintable.2 hprintable.1
  refine ⟨?_, ?_, ?_, ?_⟩
  · intro hempty
    have hpos := print_pos hplain
    rw [hbytes] at hempty
    rw [List.map_eq_nil_iff.mp hempty] at hpos
    exact Nat.lt_irrefl 0 hpos
  · intro c hc
    exact ⟨shape_ends hshape c (.inl hc), (hlow c (List.mem_of_mem_head? hc)).2⟩
  · intro c hc
    exact shape_ends hshape c (.inr hc)
  · exact fun c hc => (hlow c hc).1

theorem lenient_shaped : lenient.Shaped unescaped where
  reads {raw j} h := by
    obtain ⟨lead, rest, hraw, hlead, hrest⟩ := trimmed_eq raw
    exact ⟨lead, trimmed raw, rest, hraw, hlead, hrest, parse_shape List.Subperm.refl h⟩
  prints {j} hwritten hplain := by
    have hordered := ordered_of_written (fun h => (parsed_checked h).2) hwritten
    exact parse_shape (fun _ => rfl) (parse_print hplain hordered)
  readsBack {j lead rest} hwritten hplain hlead hrest := by
    have hordered := ordered_of_written (fun h => (parsed_checked h).2) hwritten
    show parse (trimmed (lead ++ (bytes (String.ofList (print j)) ++ rest))) = _
    rw [trimmed_around hlead (standing_print hplain hordered) hrest]
    exact parse_print hplain hordered
  unescape_plain := unescaped_plain
  length_unescape := length_unescaped

end TruellmEngine.Lib.CanonicalJson
