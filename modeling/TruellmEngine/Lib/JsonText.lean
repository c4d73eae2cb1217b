/-
  Documents as text. Text keeps the value of a number but not how it was held: one that is not
  negative is read back as unsigned. `canon` is a document as it is read back.

  `JsonText.Faithful` is what is asked of a writer and its reader: a document that was read, or
  that is made of such documents, comes back as its `canon`, and its text is one line. A
  document can be written where all its strings can, and no other float is written here than
  one that was read.
-/
import TruellmEngine.Lib.Json

namespace TruellmEngine.Lib

namespace Json

mutual

/-- The document as a reader gives it back. -/
def canon : Json → Json
  | .integer i => if 0 ≤ i then .unsigned i.toUInt64 else .integer i
  | .array xs => .array (canons xs)
  | .object fields => .object (canonFields fields)
  | j => j

def canons : List Json → List Json
  | [] => []
  | x :: xs => canon x :: canons xs

def canonFields : List (String × Json) → List (String × Json)
  | [] => []
  | (key, v) :: fields => (key, canon v) :: canonFields fields

end

theorem canons_eq_map (xs : List Json) : canons xs = xs.map canon := by
  induction xs with
  | nil => rfl
  | cons x xs ih => rw [canons, ih, List.map_cons]

mutual

theorem canon_canon : ∀ j : Json, j.canon.canon = j.canon
  | .null | .boolean _ | .unsigned _ | .float _ | .string _ => rfl
  | .integer i => by
    by_cases hi : 0 ≤ i
    · rw [canon, if_pos hi]
      rfl
    · rw [canon, if_neg hi, canon, if_neg hi]
  | .array xs => congrArg array (canons_canons xs)
  | .object fields => congrArg object (canonFields_canonFields fields)

theorem canons_canons : ∀ xs : List Json, canons (canons xs) = canons xs
  | [] => rfl
  | x :: xs => by rw [canons, canons, canon_canon x, canons_canons xs]

theorem canonFields_canonFields : ∀ fields : List (String × Json),
    canonFields (canonFields fields) = canonFields fields
  | [] => rfl
  | (key, v) :: fields => by
    rw [canonFields, canonFields, canon_canon v, canonFields_canonFields fields]

end

/-- The whole number that a document is. -/
def number? : Json → Option Int
  | .unsigned n => some n.toNat
  | .integer i => some i.toInt
  | _ => none

theorem number?_canon (j : Json) : j.canon.number? = j.number? := by
  cases j with
  | integer i =>
    unfold canon
    split
    · rename_i h
      have hi : 0 ≤ i.toInt := Int64.le_iff_toInt_le.mp h
      show some (i.toUInt64.toNat : Int) = some i.toInt
      rw [Int64.toNat_toUInt64_of_le h, Int64.toNatClampNeg, Int.toNat_of_nonneg hi]
    · rfl
  | _ => rfl

theorem getInt_canon (j : Json) : getInt j.canon = getInt j := by
  cases j with
  | integer i =>
    unfold canon
    split
    · show Except.ok i.toUInt64.toUInt32.toInt32 = Except.ok i.toInt32
      congr 1
      apply Int32.toBitVec_inj.mp
      show i.toBitVec.setWidth 32 = i.toBitVec.signExtend 32
      exact (BitVec.signExtend_eq_setWidth_of_le _ (by decide)).symm
    · rfl
  | _ => rfl

/-- The fields of an object stand in the order of their keys, each key once. -/
def KeysAscend (fields : List (String × Json)) : Prop :=
  (fields.map Prod.fst).Pairwise (· < ·)

instance (fields : List (String × Json)) : Decidable (KeysAscend fields) :=
  inferInstanceAs (Decidable (List.Pairwise _ _))

/-- The keys of an object stand in order, each once. -/
def KeysOnce : Json → Prop
  | .object fields => KeysAscend fields
  | _ => True

theorem mem_insertField {key : String} {v : Json} {fields : List (String × Json)}
    {f : String × Json} (h : f ∈ insertField key v fields) : f = (key, v) ∨ f ∈ fields := by
  induction fields with
  | nil => exact .inl (List.mem_singleton.mp h)
  | cons g fields ih =>
    unfold insertField at h
    split at h
    · rcases List.mem_cons.mp h with rfl | h
      · exact .inl rfl
      · exact .inr (List.mem_cons_of_mem g h)
    · split at h
      · exact List.mem_cons.mp h
      · rcases List.mem_cons.mp h with rfl | h
        · exact .inr List.mem_cons_self
        · exact (ih h).imp_right (List.mem_cons_of_mem g)

theorem keysAscend_cons {f : String × Json} {fields : List (String × Json)} :
    KeysAscend (f :: fields) ↔ (∀ g ∈ fields, f.1 < g.1) ∧ KeysAscend fields := by
  unfold KeysAscend
  rw [List.map_cons, List.pairwise_cons, List.forall_mem_map]

theorem keysAscend_insertField (key : String) (v : Json) {fields : List (String × Json)}
    (h : KeysAscend fields) : KeysAscend (insertField key v fields) := by
  induction fields with
  | nil => exact List.pairwise_singleton _ _
  | cons g fields ih =>
    obtain ⟨hg, hfields⟩ := keysAscend_cons.mp h
    unfold insertField
    split
    · rename_i heq
      exact keysAscend_cons.mpr ⟨fun f hf => heq ▸ hg f hf, hfields⟩
    · rename_i hne
      split
      · rename_i hlt
        refine keysAscend_cons.mpr ⟨fun f hf => ?_, h⟩
        rcases List.mem_cons.mp hf with rfl | hf
        · exact hlt
        · exact String.lt_trans hlt (hg f hf)
      · rename_i hge
        refine keysAscend_cons.mpr ⟨fun f hf => ?_, ih hfields⟩
        rcases mem_insertField hf with rfl | hf
        · by_contra hle
          exact hne (String.le_antisymm (String.not_lt.mp hle) (String.not_lt.mp hge))
        · exact hg f hf

theorem keysOnce_setField {j : Json} (h : j.KeysOnce) (key : String) (v : Json) :
    (j.setField key v).KeysOnce := by
  cases j with
  | object fields => exact keysAscend_insertField key v h
  | _ => exact h

theorem isObject_setField {j : Json} (h : j.isObject = true) (key : String) (v : Json) :
    (j.setField key v).isObject = true := by
  cases j with
  | object fields => rfl
  | _ => cases h

end Json

namespace JsonText

/-- A document that was read, or that is made of such documents, texts and numbers. -/
inductive Written (text : JsonText) : Json → Prop
  | parsed {raw : List UInt8} {j : Json} : text.parse raw = some j → Written text j
  | null : Written text .null
  | boolean (b : Bool) : Written text (.boolean b)
  | unsigned (n : UInt64) : Written text (.unsigned n)
  | integer (i : Int64) : Written text (.integer i)
  | string (s : String) : Written text (.string s)
  | array {xs : List Json} : (∀ x ∈ xs, Written text x) → Written text (.array xs)
  | object {fields : List (String × Json)} : Json.KeysAscend fields →
      (∀ f ∈ fields, Written text f.2) → Written text (.object fields)

/-- A text of ASCII characters. -/
def Ascii (s : String) : Prop := ∀ c ∈ s.toList, c.toNat < 128

instance (s : String) : Decidable (Ascii s) :=
  List.decidableBAll (fun c : Char => c.toNat < 128) s.toList

structure Faithful (text : JsonText) : Prop where
  readsBack {j : Json} : text.Written j → text.encodes j = true →
    text.parse (bytes (text.dump j)) = some j.canon
  oneLine {j : Json} : text.encodes j = true →
    '\n' ∉ (text.dump j).toList ∧ '\r' ∉ (text.dump j).toList
  encodes_parsed {raw : List UInt8} {j : Json} : text.parse raw = some j → text.encodes j = true
  encodes_dump {j : Json} : text.encodes j = true → text.encodes (.string (text.dump j)) = true
  encodes_ascii {s : String} : Ascii s → text.encodes (.string s) = true
  encodes_null : text.encodes .null = true
  encodes_integer (i : Int64) : text.encodes (.integer i) = true
  encodes_array {xs : List Json} :
    text.encodes (.array xs) = true ↔ ∀ x ∈ xs, text.encodes x = true
  encodes_object {fields : List (String × Json)} : text.encodes (.object fields) = true ↔
    ∀ f ∈ fields, text.encodes (.string f.1) = true ∧ text.encodes f.2 = true

end JsonText

/-- What is in a document that can be written can be written. -/
theorem encodes_field {text : JsonText} (hf : text.Faithful) {j v : Json} {key : String}
    (h : text.encodes j = true) (hv : j.field? key = some v) : text.encodes v = true := by
  cases j with
  | object fields =>
    obtain ⟨front, back, hfields, -⟩ := List.lookup_eq_some_iff.mp hv
    refine (hf.encodes_object.mp h (key, v) ?_).2
    rw [hfields]
    exact List.mem_append_right _ List.mem_cons_self
  | _ => cases hv

end TruellmEngine.Lib
