/-
  JSON documents and their typed accessors. A document carries its type at run time, and an
  accessor throws when it finds another one: `value` throws on what is no object, and on a
  field that is there with the wrong type. An absent field gives the default.

  `value_isOk` says when an access completes, from the types in the document alone.

  A `String` here is a string of bytes: each character stands for one.
-/
import Mathlib.Data.List.Basic

namespace TruellmEngine.Lib

/-- A parsed document; the fields of an object are in the order of its keys. -/
inductive Json where
  | null
  | boolean (b : Bool)
  | unsigned (n : UInt64)
  | integer (i : Int64)
  | float (x : Float)
  | string (s : String)
  | array (xs : List Json)
  | object (fields : List (String × Json))

/-- What an access throws. -/
inductive TypeError where
  | notObject
  | mismatch
  /-- A text in the document is not UTF-8. -/
  | encoding
  deriving DecidableEq

/-- What outside code does with text: `parse` gives `none` where the text is no document, and
    `encodes` says whether a document can be written (one that was parsed can). -/
structure JsonText where
  parse : List UInt8 → Option Json
  dump : Json → String
  encodes : Json → Bool := fun _ => true

def JsonText.dumps (text : JsonText) (j : Json) : Except TypeError String :=
  if text.encodes j then .ok (text.dump j) else .error .encoding

/-- The bytes of a text. -/
def bytes (s : String) : List UInt8 := s.toList.map fun c => c.toNat.toUInt8

def ofBytes (raw : List UInt8) : String := String.ofList (raw.map fun b => Char.ofNat b.toNat)

namespace Json

/-- The field of an object. -/
def field? (key : String) : Json → Option Json
  | .object fields => fields.lookup key
  | _ => none

def contains (j : Json) (key : String) : Bool := (j.field? key).isSome

def isString : Json → Bool
  | .string _ => true
  | _ => false

def isArray : Json → Bool
  | .array _ => true
  | _ => false

def isNumber : Json → Bool
  | .unsigned _ | .integer _ | .float _ => true
  | _ => false

def isAny : Json → Bool := fun _ => true

def isObject : Json → Bool
  | .object _ => true
  | _ => false

def isArithmetic : Json → Bool
  | .boolean _ => true
  | j => j.isNumber

/-- What a loop over the document visits. -/
def items : Json → List Json
  | .null => []
  | .array xs => xs
  | .object fields => fields.map Prod.snd
  | j => [j]

/-- Nothing to visit; other values than these are never empty. -/
def isEmpty : Json → Bool
  | .null => true
  | .array xs => xs.isEmpty
  | .object fields => fields.isEmpty
  | _ => false

/-- The document behind a loop that changes what it visits. -/
def setItems (xs : List Json) : Json → Json
  | .null => .null
  | .array _ => .array xs
  | .object fields => .object ((fields.map Prod.fst).zip xs)
  | j => xs.headD j

def pushBack (j x : Json) : Except TypeError Json :=
  match j with
  | .null => .ok (.array [x])
  | .array xs => .ok (.array (xs ++ [x]))
  | _ => .error .mismatch

/-- The fields with one of them set, in the order of the keys. -/
def insertField (key : String) (v : Json) : List (String × Json) → List (String × Json)
  | [] => [(key, v)]
  | (k, w) :: fields =>
    if key = k then (key, v) :: fields
    else if key < k then (key, v) :: (k, w) :: fields
    else (k, w) :: insertField key v fields

/-- Sets a field of an object. -/
def setField (j : Json) (key : String) (v : Json) : Json :=
  match j with
  | .object fields => .object (insertField key v fields)
  | j => j

def getJson : Json → Except TypeError Json := .ok

def getString : Json → Except TypeError String
  | .string s => .ok s
  | _ => .error .mismatch

def getBoolean : Json → Except TypeError Bool
  | .boolean b => .ok b
  | _ => .error .mismatch

def getUInt64 : Json → Except TypeError UInt64
  | .unsigned n => .ok n
  | .integer i => .ok i.toUInt64
  | .float x => .ok x.toUInt64
  | _ => .error .mismatch

/-- The `int` of a number or of a boolean. -/
def getInt : Json → Except TypeError Int32
  | .boolean b => .ok (if b then 1 else 0)
  | .unsigned n => .ok n.toUInt32.toInt32
  | .integer i => .ok i.toInt32
  | .float x => .ok x.toInt32
  | _ => .error .mismatch

/-- The field `key` by the accessor `get`, or `dflt` where it is absent. -/
def value {α : Type} (get : Json → Except TypeError α) (j : Json) (key : String) (dflt : α) :
    Except TypeError α :=
  match j with
  | .object fields =>
    match fields.lookup key with
    | some v => get v
    | none => .ok dflt
  | _ => .error .notObject

/-- What `value` gives where it completes. -/
def valueAt {α : Type} (get : Json → Except TypeError α) (j : Json) (key : String) (dflt : α) :
    α :=
  match value get j key dflt with
  | .ok a => a
  | .error _ => dflt

/-- An object whose field `key`, if any, has the type. -/
def Field (type : Json → Bool) (j : Json) (key : String) : Prop :=
  match j with
  | .object fields => ∀ v ∈ fields.lookup key, type v = true
  | _ => False

end Json

/-! ## When an access completes -/

section

variable {ε : Type*} {α β : Type}

theorem isOk_iff {x : Except ε α} : x.isOk = true ↔ ∃ a, x = .ok a := by
  cases x with
  | error e => simp [Except.isOk, Except.toBool]
  | ok a => simp [Except.isOk, Except.toBool]

theorem toOption_eq_some {x : Except ε α} {a : α} : x.toOption = some a ↔ x = .ok a := by
  cases x with
  | ok b => exact ⟨fun h => congrArg Except.ok (Option.some.inj h), fun h =>
      congrArg some (Except.ok.inj h)⟩
  | error e => exact iff_of_false (fun h => nomatch h) (fun h => nomatch h)

theorem bind_eq_ok {x : Except ε α} {f : α → Except ε β} {b : β} :
    (x >>= f) = .ok b ↔ ∃ a, x = .ok a ∧ f a = .ok b := by
  cases x with
  | error e =>
    constructor
    · intro h
      cases h
    · rintro ⟨a, ha, -⟩
      cases ha
  | ok a =>
    constructor
    · intro h
      exact ⟨a, rfl, h⟩
    · rintro ⟨a', ha, h⟩
      cases ha
      exact h

theorem isOk_bind {x : Except ε α} {f : α → Except ε β} :
    (x >>= f).isOk = true ↔ ∃ a, x = .ok a ∧ (f a).isOk = true := by
  simp only [isOk_iff, bind_eq_ok]
  constructor
  · rintro ⟨b, a, hx, hb⟩
    exact ⟨a, hx, b, hb⟩
  · rintro ⟨a, hx, b, hb⟩
    exact ⟨b, a, hx, hb⟩

theorem isOk_mapM {f : α → Except ε β} {xs : List α} :
    (xs.mapM f).isOk = true ↔ ∀ x ∈ xs, (f x).isOk = true := by
  induction xs with
  | nil => exact iff_of_true rfl (by simp)
  | cons x xs ih =>
    rw [List.mapM_cons, isOk_bind, List.forall_mem_cons, ← ih]
    constructor
    · rintro ⟨y, hy, h⟩
      obtain ⟨ys, hys, -⟩ := isOk_bind.mp h
      exact ⟨isOk_iff.mpr ⟨y, hy⟩, isOk_iff.mpr ⟨ys, hys⟩⟩
    · rintro ⟨hx, hxs⟩
      obtain ⟨y, hy⟩ := isOk_iff.mp hx
      obtain ⟨ys, hys⟩ := isOk_iff.mp hxs
      exact ⟨y, hy, isOk_bind.mpr ⟨ys, hys, rfl⟩⟩

theorem mapM_eq_ok {f : α → Except ε β} {g : α → β} {xs : List α}
    (h : ∀ x ∈ xs, f x = .ok (g x)) : xs.mapM f = .ok (xs.map g) := by
  induction xs with
  | nil => rfl
  | cons x xs ih =>
    obtain ⟨hx, hxs⟩ := List.forall_mem_cons.mp h
    rw [List.mapM_cons, hx, ih hxs]
    rfl

/-- What is true of all results of `f` is true of all results of the loop. -/
theorem forall_of_mapM {f : α → Except ε β} {P : β → Prop} {xs : List α} {ys : List β}
    (h : ∀ x ∈ xs, ∀ y, f x = .ok y → P y) (hys : xs.mapM f = .ok ys) : ∀ y ∈ ys, P y := by
  induction xs generalizing ys with
  | nil =>
    cases hys
    exact fun _ hy => absurd hy List.not_mem_nil
  | cons x xs ih =>
    rw [List.mapM_cons] at hys
    obtain ⟨y, hy, hmore⟩ := bind_eq_ok.mp hys
    obtain ⟨rest, hrest, hcons⟩ := bind_eq_ok.mp hmore
    cases hcons
    obtain ⟨hx, hxs⟩ := List.forall_mem_cons.mp h
    exact List.forall_mem_cons.mpr ⟨hx y hy, ih hxs hrest⟩

/-- Each result of the loop is one of `f`. -/
theorem forall₂_of_mapM {f : α → Except ε β} {R : α → β → Prop} {xs : List α} {ys : List β}
    (h : ∀ x ∈ xs, ∀ y, f x = .ok y → R x y) (hys : xs.mapM f = .ok ys) :
    List.Forall₂ R xs ys := by
  induction xs generalizing ys with
  | nil =>
    cases hys
    exact .nil
  | cons x xs ih =>
    rw [List.mapM_cons] at hys
    obtain ⟨y, hy, hmore⟩ := bind_eq_ok.mp hys
    obtain ⟨rest, hrest, hcons⟩ := bind_eq_ok.mp hmore
    cases hcons
    obtain ⟨hx, hxs⟩ := List.forall_mem_cons.mp h
    exact .cons (hx y hy) (ih hxs hrest)

theorem map_of_mapM {γ : Type} {f : α → Except ε β} {g : β → γ} {h : α → γ}
    (hf : ∀ x y, f x = .ok y → g y = h x) {xs : List α} {ys : List β} (hys : xs.mapM f = .ok ys) :
    ys.map g = xs.map h := by
  induction xs generalizing ys with
  | nil =>
    cases hys
    rfl
  | cons x xs ih =>
    rw [List.mapM_cons] at hys
    obtain ⟨y, hy, hmore⟩ := bind_eq_ok.mp hys
    obtain ⟨rest, hrest, hcons⟩ := bind_eq_ok.mp hmore
    cases hcons
    rw [List.map_cons, List.map_cons, hf x y hy, ih hrest]

end

theorem dumps_isOk (text : JsonText) (j : Json) : (text.dumps j).isOk = text.encodes j := by
  unfold JsonText.dumps
  split
  · rename_i h
    rw [h]
    rfl
  · rename_i h
    rw [Bool.eq_false_iff.mpr h]
    rfl

namespace Json

theorem getJson_isOk (j : Json) : (getJson j).isOk = j.isAny := rfl

theorem getString_isOk (j : Json) : (getString j).isOk = j.isString := by
  cases j <;> rfl

theorem getUInt64_isOk (j : Json) : (getUInt64 j).isOk = j.isNumber := by
  cases j <;> rfl

theorem getInt_isOk (j : Json) : (getInt j).isOk = j.isArithmetic := by
  cases j <;> rfl

/-- The access completes exactly on an object with the field absent or of the type. -/
theorem value_isOk {α : Type} {get : Json → Except TypeError α} {type : Json → Bool}
    (hget : ∀ j, (get j).isOk = type j) (j : Json) (key : String) (dflt : α) :
    (value get j key dflt).isOk = true ↔ Field type j key := by
  unfold value Field
  cases j with
  | object fields =>
    dsimp only
    cases hfield : fields.lookup key with
    | none => exact iff_of_true rfl (by simp)
    | some v => simp [hget]
  | _ => exact iff_of_false Bool.false_ne_true id

theorem value_eq {α : Type} {get : Json → Except TypeError α} {j : Json} {key : String}
    {dflt : α} (h : (value get j key dflt).isOk = true) :
    value get j key dflt = .ok (valueAt get j key dflt) := by
  obtain ⟨a, ha⟩ := isOk_iff.mp h
  unfold valueAt
  rw [ha]

theorem valueAt_of_value {α : Type} {get : Json → Except TypeError α} {j : Json} {key : String}
    {dflt a : α} (h : value get j key dflt = .ok a) : valueAt get j key dflt = a := by
  unfold valueAt
  rw [h]

theorem isObject_of_value {α : Type} {get : Json → Except TypeError α} {j : Json} {key : String}
    {dflt a : α} (h : value get j key dflt = .ok a) : j.isObject = true := by
  cases j with
  | object fields => rfl
  | _ => cases h

/-- A computation that starts with an access. -/
theorem isOk_value_bind {α β : Type} {get : Json → Except TypeError α} {type : Json → Bool}
    (hget : ∀ j, (get j).isOk = type j) {j : Json} {key : String} {dflt : α}
    {f : α → Except TypeError β} :
    (value get j key dflt >>= f).isOk = true ↔
      Field type j key ∧ (f (valueAt get j key dflt)).isOk = true := by
  rw [isOk_bind, ← value_isOk hget j key dflt]
  constructor
  · rintro ⟨a, ha, hf⟩
    have hok := isOk_iff.mpr ⟨a, ha⟩
    have hsame : a = valueAt get j key dflt := Except.ok.inj (ha.symm.trans (value_eq hok))
    exact ⟨hok, hsame ▸ hf⟩
  · rintro ⟨hok, hf⟩
    exact ⟨_, value_eq hok, hf⟩

/-! ## Fields that are set -/

theorem lookup_insertField_self (key : String) (v : Json) (fields : List (String × Json)) :
    (insertField key v fields).lookup key = some v := by
  induction fields with
  | nil => exact List.lookup_cons_self
  | cons field fields ih =>
    obtain ⟨k, w⟩ := field
    unfold insertField
    split
    · exact List.lookup_cons_self
    · rename_i hne
      split
      · exact List.lookup_cons_self
      · rw [List.lookup_cons, beq_eq_false_iff_ne.mpr hne]
        exact ih

theorem lookup_insertField_ne {key k : String} (hne : k ≠ key) (v : Json)
    (fields : List (String × Json)) : (insertField key v fields).lookup k = fields.lookup k := by
  induction fields with
  | nil =>
    unfold insertField
    rw [List.lookup_cons, beq_eq_false_iff_ne.mpr hne]
  | cons field fields ih =>
    obtain ⟨k', w⟩ := field
    unfold insertField
    split
    · rename_i heq
      rw [List.lookup_cons, List.lookup_cons, ← heq, beq_eq_false_iff_ne.mpr hne]
    · split
      · rw [List.lookup_cons, beq_eq_false_iff_ne.mpr hne]
      · rw [List.lookup_cons, List.lookup_cons, ih]

theorem field?_setField_ne {key k : String} (hne : k ≠ key) (j v : Json) :
    (j.setField key v).field? k = j.field? k := by
  cases j with
  | object fields => exact lookup_insertField_ne hne v fields
  | _ => rfl

theorem field?_setField_self {j : Json} (hj : j.isObject = true) (key : String) (v : Json) :
    (j.setField key v).field? key = some v := by
  cases j with
  | object fields => exact lookup_insertField_self key v fields
  | _ => cases hj

theorem value_setField_ne {α : Type} {get : Json → Except TypeError α} {key k : String}
    {dflt : α} (hne : k ≠ key) (j v : Json) :
    value get (j.setField key v) k dflt = value get j k dflt := by
  cases j with
  | object fields =>
    unfold value setField
    dsimp only
    rw [lookup_insertField_ne hne]
  | _ => rfl

theorem valueString_setField_self {j : Json} (hj : j.isObject = true) (key s dflt : String) :
    value getString (j.setField key (.string s)) key dflt = .ok s := by
  cases j with
  | object fields =>
    unfold value setField
    dsimp only
    rw [lookup_insertField_self]
    rfl
  | _ => cases hj

theorem valueString_isOk (j : Json) (key dflt : String) :
    (value getString j key dflt).isOk = true ↔ Field isString j key :=
  value_isOk getString_isOk j key dflt

theorem valueUInt64_isOk (j : Json) (key : String) (dflt : UInt64) :
    (value getUInt64 j key dflt).isOk = true ↔ Field isNumber j key :=
  value_isOk getUInt64_isOk j key dflt

theorem valueInt_isOk (j : Json) (key : String) (dflt : Int32) :
    (value getInt j key dflt).isOk = true ↔ Field isArithmetic j key :=
  value_isOk getInt_isOk j key dflt

end Json

end TruellmEngine.Lib
