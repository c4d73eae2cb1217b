/-
  Canonical text of documents: no blanks, the fields of an object in the order of their keys.
  What can be written has ASCII texts only and no floats, and what is read is checked for the
  same.

  `readValue_print`: the reader gets back what was printed, whatever stands behind it.
  `canonical_faithful`: the two are a writer and a reader as `JsonText.Faithful` asks for.
-/
import TruellmEngine.Lib.JsonText

namespace TruellmEngine.Lib.CanonicalJson

/-! ## Texts -/

/-- The characters that stand for themselves behind a backslash, or for another one. -/
def shortEscapes : List (Char × Char) :=
  [('"', '"'), ('\\', '\\'), ('\x08', 'b'), ('\x0c', 'f'), ('\n', 'n'), ('\r', 'r'), ('\t', 't')]

def escape (c : Char) : List Char :=
  match shortEscapes.lookup c with
  | some e => ['\\', e]
  | none =>
    if c.toNat < 32 then ['\\', 'u', '0', '0', Nat.digitChar (c.toNat / 16),
      Nat.digitChar (c.toNat % 16)]
    else [c]

def quote (s : String) : List Char := '"' :: s.toList.flatMap escape ++ ['"']

def unescape (e : Char) : Option Char := (shortEscapes.map Prod.swap).lookup e

/-- The value of a digit to the base sixteen. -/
def digit? (c : Char) : Option ℕ := (List.range 16).find? fun d => Nat.digitChar d = c

/-- The text up to the closing quote, and what is behind it. -/
def readString : List Char → Option (List Char × List Char)
  | [] => none
  | '"' :: cs => some ([], cs)
  | '\\' :: 'u' :: '0' :: '0' :: a :: b :: cs =>
    (digit? a).bind fun high => (digit? b).bind fun low =>
      (readString cs).map fun s => (Char.ofNat (16 * high + low) :: s.1, s.2)
  | '\\' :: e :: cs =>
    (unescape e).bind fun c => (readString cs).map fun s => (c :: s.1, s.2)
  | c :: cs => (readString cs).map fun s => (c :: s.1, s.2)

theorem digit?_digitChar {d : ℕ} (h : d < 16) : digit? (Nat.digitChar d) = some d := by
  have hall : ∀ d < 16, digit? (Nat.digitChar d) = some d := by decide
  exact hall d h

/-- One character and its text. -/
theorem readString_escape (c : Char) (cs : List Char) :
    readString (escape c ++ cs) = (readString cs).map fun s => (c :: s.1, s.2) := by
  have hshort : ∀ p ∈ shortEscapes, readString ('\\' :: p.2 :: cs) =
      (readString cs).map fun s => (p.1 :: s.1, s.2) := by
    have hshape : ∀ e c, e ≠ 'u' → unescape e = some c → readString ('\\' :: e :: cs) =
        (readString cs).map fun s => (c :: s.1, s.2) := by
      intro e c hu hc
      rw [readString]
      · rw [hc]
        rfl
      · intro _ _ _ h _
        exact hu h
    have hall : ∀ p ∈ shortEscapes, p.2 ≠ 'u' ∧ unescape p.2 = some p.1 := by decide
    intro p hp
    exact hshape p.2 p.1 (hall p hp).1 (hall p hp).2
  unfold escape
  split
  · rename_i e he
    obtain ⟨before, after, hsplit, -⟩ := List.lookup_eq_some_iff.mp he
    exact hshort (c, e) (by rw [hsplit]; simp)
  · rename_i hnone
    split
    · rename_i hlow
      have hc : Char.ofNat (16 * (c.toNat / 16) + c.toNat % 16) = c := by
        rw [Nat.div_add_mod]
        exact Char.ofNat_toNat c
      show ((digit? _).bind fun high => (digit? _).bind fun low => (readString cs).map
        fun s => (Char.ofNat (16 * high + low) :: s.1, s.2)) = _
      rw [digit?_digitChar (by omega), digit?_digitChar (by omega)]
      show ((readString cs).map fun s => (Char.ofNat _ :: s.1, s.2)) = _
      rw [hc]
    · have hquote : c ≠ '"' := by
        rintro rfl
        cases hnone
      have hback : c ≠ '\\' := by
        rintro rfl
        cases hnone
      show readString (c :: cs) = _
      rw [readString]
      · exact hquote
      · intro _ _ _ h _
        exact hback h
      · intro _ _ h _
        exact hback h

theorem readString_quote (s : String) (cs : List Char) :
    readString (s.toList.flatMap escape ++ '"' :: cs) = some (s.toList, cs) := by
  induction s.toList with
  | nil => rfl
  | cons c rest ih => rw [List.flatMap_cons, List.append_assoc, readString_escape, ih]; rfl

/-! ## Numbers -/

def readNat (cs : List Char) : Option (ℕ × List Char) :=
  if cs.takeWhile Char.isDigit = [] then none
  else some (Nat.ofDigitChars 10 (cs.takeWhile Char.isDigit) 0, cs.dropWhile Char.isDigit)

/-- No digit stands first. -/
def NoDigit (cs : List Char) : Prop := ∀ c ∈ cs.head?, c.isDigit = false

theorem noDigit_cons {c : Char} (h : c.isDigit = false) (cs : List Char) : NoDigit (c :: cs) := by
  intro d hd
  rw [List.head?_cons, Option.mem_some_iff] at hd
  exact hd ▸ h

theorem digits_isDigit (n : ℕ) : ∀ c ∈ Nat.toDigits 10 n, c.isDigit = true := by
  intro c hc
  exact Nat.isDigit_of_mem_toDigits (by decide) (by decide) hc

theorem readNat_digits (n : ℕ) {rest : List Char} (h : NoDigit rest) :
    readNat (Nat.toDigits 10 n ++ rest) = some (n, rest) := by
  have htake : rest.takeWhile Char.isDigit = [] := by
    cases rest with
    | nil => rfl
    | cons c cs => rw [List.takeWhile_cons_of_neg (by rw [h c rfl]; exact Bool.false_ne_true)]
  have hdrop : rest.dropWhile Char.isDigit = rest := by
    cases rest with
    | nil => rfl
    | cons c cs => rw [List.dropWhile_cons_of_neg (by rw [h c rfl]; exact Bool.false_ne_true)]
  unfold readNat
  rw [List.takeWhile_append_of_pos (digits_isDigit n), htake, List.append_nil,
    if_neg Nat.toDigits_ne_nil, List.dropWhile_append_of_pos (digits_isDigit n), hdrop,
    Nat.ofDigitChars_ten_toDigits]

/-! ## Documents -/

mutual

def print : Json → List Char
  | .null => "null".toList
  | .boolean true => "true".toList
  | .boolean false => "false".toList
  | .unsigned n => Nat.toDigits 10 n.toNat
  | .integer i =>
    if 0 ≤ i then Nat.toDigits 10 i.toInt.toNat else '-' :: Nat.toDigits 10 i.toInt.natAbs
  | .float _ => []
  | .string s => quote s
  | .array [] => "[]".toList
  | .array (x :: xs) => '[' :: print x ++ printItems xs
  | .object [] => "{}".toList
  | .object ((key, v) :: fields) => '{' :: quote key ++ ':' :: print v ++ printFields fields

/-- The items behind the first one. -/
def printItems : List Json → List Char
  | [] => [']']
  | x :: xs => ',' :: print x ++ printItems xs

def printFields : List (String × Json) → List Char
  | [] => ['}']
  | (key, v) :: fields => ',' :: quote key ++ ':' :: print v ++ printFields fields

end

/-- What is behind a word. -/
def behind (word cs : List Char) : Option (List Char) :=
  if cs.take word.length = word then some (cs.drop word.length) else none

/-- An array from its first item, if it has one, and a reader of the others. -/
def readArray (first : Option (Json × List Char))
    (more : List Char → Option (List Json × List Char)) (cs : List Char) :
    Option (Json × List Char) :=
  match first with
  | some x => (more x.2).map fun xs => (.array (x.1 :: xs.1), xs.2)
  | none => (behind [']'] cs).map fun rest => (.array [], rest)

def readObject (first : Option ((String × Json) × List Char))
    (more : List Char → Option (List (String × Json) × List Char)) (cs : List Char) :
    Option (Json × List Char) :=
  match first with
  | some f => (more f.2).map fun fs => (.object (f.1 :: fs.1), fs.2)
  | none => (behind ['}'] cs).map fun rest => (.object [], rest)

mutual

/-- A document, and what is behind it. -/
def readValue : ℕ → List Char → Option (Json × List Char)
  | 0, _ => none
  | _ + 1, [] => none
  | n + 1, c :: cs =>
    if c = 'n' then (behind "ull".toList cs).map fun rest => (.null, rest)
    else if c = 't' then (behind "rue".toList cs).map fun rest => (.boolean true, rest)
    else if c = 'f' then (behind "alse".toList cs).map fun rest => (.boolean false, rest)
    else if c = '"' then (readString cs).map fun s => (.string (String.ofList s.1), s.2)
    else if c = '-' then (readNat cs).map fun m => (.integer (Int64.ofInt (-m.1)), m.2)
    else if c = '[' then readArray (readValue n cs) (readItems n) cs
    else if c = '{' then readObject (readField n cs) (readFields n) cs
    else (readNat (c :: cs)).map fun m => (.unsigned (UInt64.ofNat m.1), m.2)

def readItems : ℕ → List Char → Option (List Json × List Char)
  | n + 1, ',' :: cs =>
    (readValue n cs).bind fun x => (readItems n x.2).map fun xs => (x.1 :: xs.1, xs.2)
  | _, ']' :: cs => some ([], cs)
  | _, _ => none

def readField : ℕ → List Char → Option ((String × Json) × List Char)
  | n + 1, '"' :: cs =>
    (readString cs).bind fun key => (behind [':'] key.2).bind fun rest =>
      (readValue n rest).map fun v => ((String.ofList key.1, v.1), v.2)
  | _, _ => none

def readFields : ℕ → List Char → Option (List (String × Json) × List Char)
  | n + 1, ',' :: cs =>
    (readField n cs).bind fun f => (readFields n f.2).map fun fs => (f.1 :: fs.1, fs.2)
  | _, '}' :: cs => some ([], cs)
  | _, _ => none

end

mutual

/-- No floats, and ASCII texts only. -/
def plain : Json → Bool
  | .float _ => false
  | .string s => s.toList.all fun c => c.toNat < 128
  | .array xs => plainItems xs
  | .object fields => plainFields fields
  | _ => true

def plainItems : List Json → Bool
  | [] => true
  | x :: xs => plain x && plainItems xs

def plainFields : List (String × Json) → Bool
  | [] => true
  | (key, v) :: fields =>
    (key.toList.all fun c => c.toNat < 128) && plain v && plainFields fields

end

mutual

/-- The keys ascend in every object. -/
def ordered : Json → Bool
  | .array xs => orderedItems xs
  | .object fields => decide (Json.KeysAscend fields) && orderedFields fields
  | _ => true

def orderedItems : List Json → Bool
  | [] => true
  | x :: xs => ordered x && orderedItems xs

def orderedFields : List (String × Json) → Bool
  | [] => true
  | (_, v) :: fields => ordered v && orderedFields fields

end

def chars (raw : List UInt8) : List Char := raw.map fun b => Char.ofNat b.toNat

def parse (raw : List UInt8) : Option Json :=
  match readValue (chars raw).length (chars raw) with
  | some (j, []) => if plain j && ordered j then some j else none
  | _ => none

def canonical : JsonText where
  parse := parse
  dump j := String.ofList (print j)
  encodes := plain

theorem canonical_parse (raw : List UInt8) : canonical.parse raw = parse raw := rfl

example : (canonical.dump (.object [("a", .array [.integer (-5), .null]), ("b", .string "\n")])) =
    "\x7b\"a\":[-5,null],\"b\":\"\\n\"\x7d" := by decide

/-! ## Reading what was printed -/

/-- A digit is none of the characters that a document other than a number starts with. -/
theorem digit_ne {c : Char} (h : c.isDigit = true) :
    c ≠ 'n' ∧ c ≠ 't' ∧ c ≠ 'f' ∧ c ≠ '"' ∧ c ≠ '-' ∧ c ≠ '[' ∧ c ≠ '{' := by
  refine ⟨?_, ?_, ?_, ?_, ?_, ?_, ?_⟩ <;>
    · rintro rfl
      exact absurd h (by decide)

theorem readValue_digits (n m : ℕ) {rest : List Char} (h : NoDigit rest) :
    readValue (n + 1) (Nat.toDigits 10 m ++ rest) = some (.unsigned (UInt64.ofNat m), rest) := by
  have hread := readNat_digits m h
  have hdigit := digits_isDigit m
  cases hm : Nat.toDigits 10 m with
  | nil => exact absurd hm Nat.toDigits_ne_nil
  | cons d ds =>
    rw [hm] at hread hdigit
    obtain ⟨h₁, h₂, h₃, h₄, h₅, h₆, h₇⟩ := digit_ne (hdigit d List.mem_cons_self)
    rw [List.cons_append] at hread ⊢
    rw [readValue, if_neg h₁, if_neg h₂, if_neg h₃, if_neg h₄, if_neg h₅, if_neg h₆, if_neg h₇,
      hread]
    rfl

theorem readValue_bracket (n : ℕ) (rest : List Char) : readValue n (']' :: rest) = none := by
  cases n with
  | zero => rfl
  | succ n => rfl

theorem readField_brace (n : ℕ) (rest : List Char) : readField n ('}' :: rest) = none := by
  cases n with
  | zero => rfl
  | succ n => rfl

theorem noDigit_items (xs : List Json) (rest : List Char) : NoDigit (printItems xs ++ rest) := by
  cases xs with
  | nil => exact noDigit_cons (by decide) _
  | cons x xs => exact noDigit_cons (by decide) _

theorem noDigit_fields (fields : List (String × Json)) (rest : List Char) :
    NoDigit (printFields fields ++ rest) := by
  cases fields with
  | nil => exact noDigit_cons (by decide) _
  | cons f fields => exact noDigit_cons (by decide) _

theorem canon_integer_eq {i : Int64} (h : 0 ≤ i) :
    Json.unsigned (UInt64.ofNat i.toInt.toNat) = (Json.integer i).canon := by
  rw [Json.canon, if_pos h]
  have hnat : i.toInt.toNat = i.toUInt64.toNat := (Int64.toNat_toUInt64_of_le h).symm
  rw [hnat, UInt64.ofNat_toNat]

theorem ofInt_natAbs {i : Int64} (h : ¬ 0 ≤ i) : Int64.ofInt (-(i.toInt.natAbs : Int)) = i := by
  have hneg : i.toInt < 0 := by
    rw [Int64.le_iff_toInt_le] at h
    exact Int.not_le.mp h
  have habs : -(i.toInt.natAbs : Int) = i.toInt := by omega
  rw [habs, Int64.ofInt_toInt]

theorem print_integer_neg {i : Int64} (h : ¬ 0 ≤ i) :
    print (.integer i) = '-' :: Nat.toDigits 10 i.toInt.natAbs := by
  rw [print, if_neg h]

theorem quote_append (s : String) (cs : List Char) :
    quote s ++ cs = '"' :: (s.toList.flatMap escape ++ '"' :: cs) := by
  unfold quote
  simp

theorem print_pos {j : Json} (h : plain j = true) : 0 < (print j).length := by
  match j with
  | .null | .boolean true | .boolean false => decide
  | .unsigned n => exact Nat.length_toDigits_pos
  | .integer i =>
    rw [print]
    split
    · exact Nat.length_toDigits_pos
    · exact Nat.succ_pos _
  | .float x => cases h
  | .string s => exact Nat.succ_pos _
  | .array [] | .object [] => decide
  | .array (x :: xs) => exact Nat.succ_pos _
  | .object ((key, v) :: fields) => exact Nat.succ_pos _

/-- Text of a document, with fuel for it: there is fuel for one more step. -/
theorem exists_fuel {j : Json} {n : ℕ} (h : plain j = true) (hn : (print j).length ≤ n) :
    ∃ m, n = m + 1 :=
  Nat.exists_eq_add_one.mpr (Nat.lt_of_lt_of_le (print_pos h) hn)

/-- A field is read back where its value is. -/
theorem readField_print {v : Json} {rest : List Char}
    (hv : ∀ n, (print v).length ≤ n → readValue n (print v ++ rest) = some (v.canon, rest))
    (key : String) {n : ℕ} (hn : (quote key ++ ':' :: print v).length ≤ n) :
    readField n (quote key ++ ':' :: print v ++ rest) = some ((key, v.canon), rest) := by
  rw [quote_append, List.length_cons, List.length_append, List.length_cons, List.length_cons] at hn
  obtain ⟨n, rfl⟩ : ∃ m, n = m + 1 := ⟨n - 1, by omega⟩
  rw [quote_append]
  show (readString (key.toList.flatMap escape ++ '"' :: (':' :: print v) ++ rest)).bind _ = _
  rw [List.append_assoc, List.cons_append, readString_quote]
  show ((readValue n (print v ++ rest)).map _) = _
  rw [hv n (by omega)]
  show some ((String.ofList key.toList, v.canon), rest) = _
  rw [String.ofList_toList]

mutual

/-- The reader gets back what was printed, whatever stands behind it; the length of the text is
    enough fuel. -/
theorem readValue_print : ∀ (j : Json) (n : ℕ) (rest : List Char), plain j = true →
    (print j).length ≤ n → NoDigit rest → readValue n (print j ++ rest) = some (j.canon, rest) := by
  intro j n rest hplain hn hrest
  obtain ⟨n, rfl⟩ := exists_fuel hplain hn
  match j with
  | .null | .boolean true | .boolean false => rfl
  | .unsigned m =>
    rw [print, readValue_digits n m.toNat hrest, UInt64.ofNat_toNat]
    rfl
  | .integer i =>
    by_cases hi : 0 ≤ i
    · rw [print, if_pos hi, readValue_digits n _ hrest, canon_integer_eq hi]
    · rw [print_integer_neg hi]
      show (readNat (Nat.toDigits 10 i.toInt.natAbs ++ rest)).map _ = _
      rw [readNat_digits _ hrest, Json.canon, if_neg hi]
      show some (Json.integer (Int64.ofInt (-(i.toInt.natAbs : Int))), rest) = _
      rw [ofInt_natAbs hi]
  | .float x => cases hplain
  | .string s =>
    rw [print, quote_append]
    show (readString _).map _ = _
    rw [readString_quote]
    show some (Json.string (String.ofList s.toList), rest) = _
    rw [String.ofList_toList]
    rfl
  | .array [] =>
    show readArray (readValue n (']' :: rest)) (readItems n) (']' :: rest) = _
    rw [readValue_bracket]
    rfl
  | .array (x :: xs) =>
    rw [plain, plainItems, Bool.and_eq_true] at hplain
    rw [print, List.length_append, List.length_cons] at hn
    have hx := readValue_print x n (printItems xs ++ rest) hplain.1 (by omega)
      (noDigit_items xs rest)
    have hxs := readItems_print xs n rest hplain.2 (by omega)
    show readArray (readValue n (print x ++ printItems xs ++ rest)) (readItems n) _ = _
    rw [List.append_assoc, hx]
    show (readItems n (printItems xs ++ rest)).map _ = _
    rw [hxs]
    rfl
  | .object [] =>
    show readObject (readField n ('}' :: rest)) (readFields n) ('}' :: rest) = _
    rw [readField_brace]
    rfl
  | .object ((key, v) :: fields) =>
    rw [plain, plainFields, Bool.and_eq_true, Bool.and_eq_true] at hplain
    rw [print, List.length_append, List.length_append, List.length_cons, List.length_cons] at hn
    have hv := fun n hn => readValue_print v n (printFields fields ++ rest) hplain.1.2 hn
      (noDigit_fields fields rest)
    have hfield := @readField_print v _ hv key n
      (by rw [List.length_append, List.length_cons]; omega)
    have hfields := readFields_print fields n rest hplain.2 (by omega)
    show readObject (readField n (quote key ++ ':' :: print v ++ printFields fields ++ rest))
      (readFields n) _ = _
    rw [List.append_assoc, hfield]
    show (readFields n (printFields fields ++ rest)).map _ = _
    rw [hfields]
    rfl

theorem readItems_print : ∀ (xs : List Json) (n : ℕ) (rest : List Char), plainItems xs = true →
    (printItems xs).length ≤ n →
    readItems n (printItems xs ++ rest) = some (Json.canons xs, rest) := by
  intro xs n rest hplain hn
  match xs with
  | [] =>
    cases n with
    | zero => rfl
    | succ n => rfl
  | x :: xs =>
    rw [printItems, List.length_append, List.length_cons] at hn
    rw [plainItems, Bool.and_eq_true] at hplain
    obtain ⟨n, rfl⟩ : ∃ m, n = m + 1 := ⟨n - 1, by omega⟩
    have hx := readValue_print x n (printItems xs ++ rest) hplain.1 (by omega)
      (noDigit_items xs rest)
    have hxs := readItems_print xs n rest hplain.2 (by omega)
    show (readValue n (print x ++ printItems xs ++ rest)).bind _ = _
    rw [List.append_assoc, hx]
    show (readItems n (printItems xs ++ rest)).map _ = _
    rw [hxs]
    rfl

theorem readFields_print : ∀ (fields : List (String × Json)) (n : ℕ) (rest : List Char),
    plainFields fields = true → (printFields fields).length ≤ n →
    readFields n (printFields fields ++ rest) = some (Json.canonFields fields, rest) := by
  intro fields n rest hplain hn
  match fields with
  | [] =>
    cases n with
    | zero => rfl
    | succ n => rfl
  | (key, v) :: fields =>
    rw [printFields, List.length_append, List.length_append, List.length_cons,
      List.length_cons] at hn
    rw [plainFields, Bool.and_eq_true, Bool.and_eq_true] at hplain
    obtain ⟨n, rfl⟩ : ∃ m, n = m + 1 := ⟨n - 1, by omega⟩
    have hv := fun n hn => readValue_print v n (printFields fields ++ rest) hplain.1.2 hn
      (noDigit_fields fields rest)
    have hfield := @readField_print v _ hv key n
      (by rw [List.length_append, List.length_cons]; omega)
    have hfields := readFields_print fields n rest hplain.2 (by omega)
    show (readField n (quote key ++ ':' :: print v ++ printFields fields ++ rest)).bind _ = _
    rw [List.append_assoc, hfield]
    show (readFields n (printFields fields ++ rest)).map _ = _
    rw [hfields]
    rfl

end

/-! ## What is printed is plain text -/

/-- Neither a control character nor beyond ASCII. -/
def Printable (cs : List Char) : Prop := ∀ c ∈ cs, 32 ≤ c.toNat ∧ c.toNat < 128

instance (cs : List Char) : Decidable (Printable cs) :=
  List.decidableBAll (fun c : Char => 32 ≤ c.toNat ∧ c.toNat < 128) cs

theorem printable_append {cs ds : List Char} (hcs : Printable cs) (hds : Printable ds) :
    Printable (cs ++ ds) :=
  List.forall_mem_append.mpr ⟨hcs, hds⟩

theorem printable_cons {c : Char} {cs : List Char} (hc : 32 ≤ c.toNat ∧ c.toNat < 128)
    (hcs : Printable cs) : Printable (c :: cs) :=
  List.forall_mem_cons.mpr ⟨hc, hcs⟩

theorem printable_digits (n : ℕ) : Printable (Nat.toDigits 10 n) := by
  intro c hc
  have hdigit := digits_isDigit n c hc
  unfold Char.isDigit at hdigit
  rw [Bool.and_eq_true, decide_eq_true_eq, decide_eq_true_eq] at hdigit
  obtain ⟨hlow, hhigh⟩ := hdigit
  have hlow : 48 ≤ c.toNat := hlow
  have hhigh : c.toNat ≤ 57 := hhigh
  omega

theorem printable_quote {s : String} (h : (s.toList.all fun c => c.toNat < 128) = true) :
    Printable (quote s) := by
  have hescape : ∀ n < 128, Printable (escape (Char.ofNat n)) := by decide
  apply printable_append (printable_cons (by decide) ?_) (by decide)
  intro d hd
  obtain ⟨c, hc, hd⟩ := List.mem_flatMap.mp hd
  have hlow : c.toNat < 128 := of_decide_eq_true (List.all_eq_true.mp h c hc)
  have hall := hescape c.toNat hlow
  rw [Char.ofNat_toNat] at hall
  exact hall d hd

mutual

theorem printable_print : ∀ j : Json, plain j = true → Printable (print j)
  | .null, _ | .boolean true, _ | .boolean false, _ => by decide
  | .unsigned n, _ => printable_digits _
  | .integer i, _ => by
    rw [print]
    split
    · exact printable_digits _
    · exact printable_cons (by decide) (printable_digits _)
  | .float _, h => by cases h
  | .string s, h => printable_quote h
  | .array [], _ | .object [], _ => by decide
  | .array (x :: xs), h => by
    rw [plain, plainItems, Bool.and_eq_true] at h
    exact printable_append (printable_cons (by decide) (printable_print x h.1))
      (printable_items xs h.2)
  | .object ((key, v) :: fields), h => by
    rw [plain, plainFields, Bool.and_eq_true, Bool.and_eq_true] at h
    exact printable_append (printable_append (printable_cons (by decide) (printable_quote h.1.1))
      (printable_cons (by decide) (printable_print v h.1.2))) (printable_fields fields h.2)

theorem printable_items : ∀ xs : List Json, plainItems xs = true → Printable (printItems xs)
  | [], _ => by decide
  | x :: xs, h => by
    rw [plainItems, Bool.and_eq_true] at h
    exact printable_append (printable_cons (by decide) (printable_print x h.1))
      (printable_items xs h.2)

theorem printable_fields : ∀ fields : List (String × Json), plainFields fields = true →
    Printable (printFields fields)
  | [], _ => by decide
  | (key, v) :: fields, h => by
    rw [plainFields, Bool.and_eq_true, Bool.and_eq_true] at h
    exact printable_append (printable_append (printable_cons (by decide) (printable_quote h.1.1))
      (printable_cons (by decide) (printable_print v h.1.2))) (printable_fields fields h.2)

end

/-- Characters that stand for one byte come through as bytes. -/
theorem chars_map {cs : List Char} (h : ∀ c ∈ cs, c.toNat < 256) :
    chars (cs.map fun c => c.toNat.toUInt8) = cs := by
  unfold chars
  rw [List.map_map]
  have hsame : ∀ c ∈ cs, ((fun b : UInt8 => Char.ofNat b.toNat) ∘ fun c => c.toNat.toUInt8) c =
      c := by
    intro c hc
    show Char.ofNat (c.toNat.toUInt8).toNat = c
    rw [Nat.toUInt8, UInt8.toNat_ofNat', Nat.mod_eq_of_lt (h c hc), Char.ofNat_toNat]
  rw [List.map_congr_left hsame, List.map_id']

theorem chars_bytes {cs : List Char} (h : Printable cs) :
    chars (bytes (String.ofList cs)) = cs := by
  unfold bytes
  rw [String.toList_ofList]
  exact chars_map fun c hc => Nat.lt_trans (h c hc).2 (by decide)

/-! ## Documents that are read back -/

mutual

theorem plain_canon : ∀ j : Json, plain j.canon = plain j
  | .null | .boolean _ | .unsigned _ | .float _ | .string _ => rfl
  | .integer i => by
    rw [Json.canon]
    split <;> rfl
  | .array xs => plain_canons xs
  | .object fields => plain_canonFields fields

theorem plain_canons : ∀ xs : List Json, plainItems (Json.canons xs) = plainItems xs
  | [] => rfl
  | x :: xs => by rw [Json.canons, plainItems, plain_canon x, plain_canons xs, plainItems]

theorem plain_canonFields : ∀ fields : List (String × Json),
    plainFields (Json.canonFields fields) = plainFields fields
  | [] => rfl
  | (key, v) :: fields => by
    rw [Json.canonFields, plainFields, plain_canon v, plain_canonFields fields, plainFields]

end

theorem keys_canonFields (fields : List (String × Json)) :
    (Json.canonFields fields).map Prod.fst = fields.map Prod.fst := by
  induction fields with
  | nil => rfl
  | cons f fields ih => rw [Json.canonFields, List.map_cons, List.map_cons, ih]

mutual

theorem ordered_canon : ∀ j : Json, ordered j.canon = ordered j
  | .null | .boolean _ | .unsigned _ | .float _ | .string _ => rfl
  | .integer i => by
    rw [Json.canon]
    split <;> rfl
  | .array xs => ordered_canons xs
  | .object fields => by
    have hkeys : Json.KeysAscend (Json.canonFields fields) ↔ Json.KeysAscend fields := by
      unfold Json.KeysAscend
      rw [keys_canonFields]
    rw [Json.canon, ordered, ordered_canonFields fields, ordered, decide_eq_decide.mpr hkeys]

theorem ordered_canons : ∀ xs : List Json, orderedItems (Json.canons xs) = orderedItems xs
  | [] => rfl
  | x :: xs => by rw [Json.canons, orderedItems, ordered_canon x, ordered_canons xs, orderedItems]

theorem ordered_canonFields : ∀ fields : List (String × Json),
    orderedFields (Json.canonFields fields) = orderedFields fields
  | [] => rfl
  | (key, v) :: fields => by
    rw [Json.canonFields, orderedFields, ordered_canon v, ordered_canonFields fields,
      orderedFields]

end

theorem plainItems_iff (xs : List Json) : plainItems xs = true ↔ ∀ x ∈ xs, plain x = true := by
  induction xs with
  | nil => exact iff_of_true rfl (by simp)
  | cons x xs ih => rw [plainItems, Bool.and_eq_true, ih, List.forall_mem_cons]

theorem plainFields_iff (fields : List (String × Json)) : plainFields fields = true ↔
    ∀ f ∈ fields, plain (.string f.1) = true ∧ plain f.2 = true := by
  induction fields with
  | nil => exact iff_of_true rfl (by simp)
  | cons f fields ih =>
    rw [plainFields, Bool.and_eq_true, Bool.and_eq_true, ih, List.forall_mem_cons]
    rfl

theorem orderedItems_of {xs : List Json} (h : ∀ x ∈ xs, ordered x = true) :
    orderedItems xs = true := by
  induction xs with
  | nil => rfl
  | cons x xs ih =>
    obtain ⟨hx, hxs⟩ := List.forall_mem_cons.mp h
    rw [orderedItems, hx, ih hxs]
    rfl

theorem orderedFields_of {fields : List (String × Json)} (h : ∀ f ∈ fields, ordered f.2 = true) :
    orderedFields fields = true := by
  induction fields with
  | nil => rfl
  | cons f fields ih =>
    obtain ⟨hf, hfields⟩ := List.forall_mem_cons.mp h
    rw [orderedFields, hf, ih hfields]
    rfl

theorem parsed_checked {raw : List UInt8} {j : Json} (h : parse raw = some j) :
    plain j = true ∧ ordered j = true := by
  unfold parse at h
  split at h
  · split at h
    · rename_i hcheck
      rw [Bool.and_eq_true] at hcheck
      cases h
      exact hcheck
    · cases h
  · cases h

theorem ordered_of_written {text : JsonText}
    (hread : ∀ {raw : List UInt8} {j : Json}, text.parse raw = some j → ordered j = true)
    {j : Json} (h : text.Written j) : ordered j = true := by
  induction h with
  | parsed hparsed => exact hread hparsed
  | null | boolean | unsigned | integer | string => rfl
  | array _ ih => exact orderedItems_of ih
  | object hascend _ ih =>
    rw [ordered, decide_eq_true hascend, orderedFields_of ih]
    rfl

theorem parse_print {j : Json} (hplain : plain j = true) (hordered : ordered j = true) :
    parse (bytes (String.ofList (print j))) = some j.canon := by
  have hread := readValue_print j (print j).length [] hplain (Nat.le_refl _) (by
    intro c hc
    cases hc)
  unfold parse
  rw [List.append_nil] at hread
  rw [chars_bytes (printable_print j hplain), hread]
  show (if plain j.canon && ordered j.canon then some j.canon else none) = _
  rw [plain_canon, ordered_canon, hplain, hordered]
  rfl

theorem canonical_reads {j : Json} (hplain : plain j = true) (hordered : ordered j = true) :
    canonical.parse (bytes (canonical.dump j)) = some j.canon :=
  parse_print hplain hordered

theorem canonical_faithful : canonical.Faithful where
  readsBack hwritten hplain :=
    canonical_reads hplain (ordered_of_written (fun h => (parsed_checked h).2) hwritten)
  oneLine {j} hplain := by
    have hprint := printable_print j hplain
    show '\n' ∉ (String.ofList (print j)).toList ∧ '\r' ∉ (String.ofList (print j)).toList
    rw [String.toList_ofList]
    constructor
    · intro h
      exact absurd (hprint _ h).1 (by decide)
    · intro h
      exact absurd (hprint _ h).1 (by decide)
  encodes_parsed hparsed := (parsed_checked hparsed).1
  encodes_dump {j} hplain := by
    show ((String.ofList (print j)).toList.all fun c => c.toNat < 128) = true
    rw [String.toList_ofList, List.all_eq_true]
    intro c hc
    exact decide_eq_true (printable_print j hplain c hc).2
  encodes_ascii {s} h := by
    show (s.toList.all fun c => c.toNat < 128) = true
    rw [List.all_eq_true]
    intro c hc
    exact decide_eq_true (h c hc)
  encodes_null := rfl
  encodes_integer _ := rfl
  encodes_array {xs} := plainItems_iff xs
  encodes_object {fields} := plainFields_iff fields

end TruellmEngine.Lib.CanonicalJson
