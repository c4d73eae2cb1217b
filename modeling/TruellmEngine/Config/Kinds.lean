/-
  The types of the fields of the configuration: what the code takes from a value in the
  document, and what the value means.

  `kept_iff` compares the two. They differ for strings that are read without resolving their
  references, for keys that are not read at all, and for integers that the field cannot hold.
-/
import TruellmEngine.Config.Toml
import TruellmEngine.Config.Secrets

namespace TruellmEngine.Config

variable {D F : Type}

/-- The value of a field. -/
inductive Setting (F : Type) where
  | str (s : String)
  | strs (l : List String)
  | bool (b : Bool)
  | int (i : Int)
  | ints (l : List Int)
  | float (x : F)
  | floats (l : List F)

/-- The type of a field, and how it is read. -/
inductive Kind where
  | string
  /-- A string whose references are not resolved. -/
  | literal
  /-- Strings whose references are not resolved. -/
  | strings
  | boolean
  /-- A switch that is not read. -/
  | unread
  | integer
  | port
  | integers
  | floating
  | floatings

def FitsInt (i : Int) : Prop := -2147483648 ≤ i ∧ i < 2147483648

def FitsPort (i : Int) : Prop := 0 ≤ i ∧ i < 65536

namespace Toml

def getInteger : Toml D → Option Int
  | .integer i => some i.toInt
  | _ => none

def getFloat [Doubles D F] (v : Toml D) : Option F := v.getDouble.map Doubles.narrow

end Toml

/-! ## Integers -/

theorem fitsInt_toInt (x : Int32) : FitsInt x.toInt := ⟨x.le_toInt, x.toInt_lt⟩

theorem ints_fit (l : List Int32) : ∀ i ∈ l.map (·.toInt), FitsInt i := by
  intro i hi
  obtain ⟨x, -, rfl⟩ := List.mem_map.mp hi
  exact fitsInt_toInt x

theorem fitsPort_toNat (p : UInt16) : FitsPort p.toNat :=
  ⟨Int.natCast_nonneg _, Int.ofNat_lt.mpr p.toNat_lt⟩

/-- `static_cast<uint16_t>` of an `int` -/
theorem toPort_eq (x : Int32) : (x.toUInt32.toUInt16.toNat : Int) = x.toInt % 65536 := by
  have hx : x.toUInt32.toUInt16.toNat = x.toBitVec.toNat % 65536 := UInt32.toNat_toUInt16 _
  have h : x.toInt = _ := BitVec.toInt_eq_toNat_bmod x.toBitVec
  rw [hx, h, Int.bmod]
  omega

theorem toPort_ofNat (p : UInt16) : (Int32.ofNat p.toNat).toUInt32.toUInt16 = p := by
  have hp := p.toNat_lt
  have h := toPort_eq (Int32.ofNat p.toNat)
  rw [Int32.toInt_ofNat_of_lt (by omega)] at h
  apply UInt16.toNat.inj
  omega

theorem getInt_of_fits (int : GetInt) {i : Int64} (h : FitsInt i.toInt) :
    ∃ x, int.get i = some x ∧ x.toInt = i.toInt := by
  obtain ⟨hlow, hhigh⟩ := h
  refine ⟨_, int.get_of_fits i hlow hhigh, ?_⟩
  rw [Int64.toInt_toInt32]
  exact Int.bmod_eq_of_le (by omega) (by omega)

theorem getPort_of_fits (int : GetInt) {i : Int64} (h : FitsPort i.toInt) :
    ∃ x, int.get i = some x ∧ (x.toUInt32.toUInt16.toNat : Int) = i.toInt := by
  obtain ⟨hlow, hhigh⟩ := h
  obtain ⟨x, hx, hint⟩ := getInt_of_fits int (i := i) ⟨by omega, by omega⟩
  exact ⟨x, hx, by rw [toPort_eq, hint]; omega⟩

/-! ## Kinds -/

namespace Kind

variable (env : String → Option String) (int : GetInt)

/-- What the code takes from a value. -/
def read [Doubles D F] : Kind → Toml D → Option (Setting F)
  | .string, v => v.getString.map fun s => .str (resolveSecrets env s)
  | .literal, v => v.getString.map .str
  | .strings, v => (v.getVector Toml.getString).map .strs
  | .boolean, v => v.getBool.map .bool
  | .unread, _ => none
  | .integer, v => (v.getInt int).map fun x => .int x.toInt
  | .port, v => (v.getInt int).map fun x => .int x.toUInt32.toUInt16.toNat
  | .integers, v => (v.getVector (Toml.getInt int)).map fun l => .ints (l.map (·.toInt))
  | .floating, v => v.getFloat.map .float
  | .floatings, v => (v.getVector Toml.getFloat).map .floats

/-- What a value of the right type means. -/
def means [Doubles D F] : Kind → Toml D → Option (Setting F)
  | .string, v | .literal, v => v.getString.map fun s => .str (resolveSecrets env s)
  | .strings, v =>
    (v.getVector Toml.getString).map fun l => .strs (l.map (resolveSecrets env))
  | .boolean, v | .unread, v => v.getBool.map .bool
  | .integer, v | .port, v => v.getInteger.map .int
  | .integers, v => (v.getVector Toml.getInteger).map .ints
  | .floating, v => v.getFloat.map .float
  | .floatings, v => (v.getVector Toml.getFloat).map .floats

/-- What a field of the kind can hold. -/
def Holds : Kind → Setting F → Prop
  | .string, .str _ | .literal, .str _ | .strings, .strs _ => True
  | .boolean, .bool _ | .unread, .bool _ => True
  | .integer, .int i => FitsInt i
  | .port, .int i => FitsPort i
  | .integers, .ints l => ∀ i ∈ l, FitsInt i
  | .floating, .float _ | .floatings, .floats _ => True
  | _, _ => False

/-- A default without a reference, or of a switch that is off. -/
def plain : Kind → Setting F → Bool
  | .string, .str s => !s.toList.contains '$'
  | .unread, .bool b => !b
  | _, _ => true

/-- The code takes what the value means. -/
def Kept : Kind → Toml D → Prop
  | .literal, v => ∀ s, v.getString = some s → resolveSecrets env s = s
  | .strings, v => ∀ l, v.getVector Toml.getString = some l → ∀ s ∈ l, resolveSecrets env s = s
  | .unread, v => v.getBool ≠ some true
  | .integer, v => ∀ i, v.getInteger = some i → FitsInt i
  | .port, v => ∀ i, v.getInteger = some i → FitsPort i
  | .integers, v => ∀ l, v.getVector Toml.getInteger = some l → ∀ i ∈ l, FitsInt i
  | .string, _ | .boolean, _ | .floating, _ | .floatings, _ => True

/-! ## Kept values -/

/-- An integer is held by its field, or by no value of its type. -/
theorem integer_kept_iff {fits : Int → Prop} {v : Toml D} {f : Int32 → Int} {j : Int}
    (hj : fits j) (hf : ∀ x, fits (f x))
    (hget : ∀ i, fits i.toInt → ∃ x, int.get i = some x ∧ f x = i.toInt) :
    ((v.getInt int).map fun x => (Setting.int (f x) : Setting F)).getD (.int j) =
        (v.getInteger.map .int).getD (.int j) ↔
      ∀ i, v.getInteger = some i → fits i := by
  cases v with
  | integer i =>
    show ((int.get i).map _).getD _ = Setting.int i.toInt ↔ ∀ k, some i.toInt = some k → fits k
    constructor
    · intro h k hk
      cases hk
      cases hi : int.get i with
      | none =>
        rw [hi] at h
        cases h
        exact hj
      | some x =>
        rw [hi] at h
        have hx : f x = i.toInt := by injection h
        exact hx ▸ hf x
    · intro h
      obtain ⟨x, hx, hfx⟩ := hget i (h _ rfl)
      rw [hx, ← hfx]
      rfl
  | boolean | floating | string | datetime | array | table =>
    refine iff_of_true rfl ?_
    intro i hi
    cases hi

theorem strings_kept_iff {l : List String} :
    (Setting.strs l : Setting F) = .strs (l.map (resolveSecrets env)) ↔
      ∀ s ∈ l, resolveSecrets env s = s := by
  rw [Setting.strs.injEq, eq_comm]
  conv_lhs => rhs; rw [← List.map_id l]
  exact List.map_inj_left

/-- An array whose integers fit is taken as it is. -/
theorem integers_of_fits {xs : List (Toml D)}
    (h : ∀ l, xs.mapM Toml.getInteger = some l → ∀ i ∈ l, FitsInt i) :
    (xs.mapM (Toml.getInt int)).map (·.map (·.toInt)) = xs.mapM Toml.getInteger := by
  induction xs with
  | nil => rfl
  | cons v xs ih =>
    rw [List.mapM_cons, List.mapM_cons]
    cases v with
    | integer i =>
      show ((int.get i).bind fun x => (xs.mapM (Toml.getInt int)).bind fun l =>
          some (x :: l)).map _ =
        (xs.mapM Toml.getInteger).bind fun l => some (i.toInt :: l)
      cases hl : xs.mapM Toml.getInteger with
      | none =>
        have hread := ih (by rw [hl]; intro l hl; cases hl)
        rw [hl, Option.map_eq_none_iff] at hread
        rw [hread]
        cases int.get i <;> rfl
      | some l =>
        have hall : ∀ j ∈ i.toInt :: l, FitsInt j := by
          apply h
          rw [List.mapM_cons, hl]
          rfl
        obtain ⟨hi, hrest⟩ := List.forall_mem_cons.mp hall
        obtain ⟨x, hx, hint⟩ := getInt_of_fits int hi
        have hread := ih (by rw [hl]; intro l' hl'; cases hl'; exact hrest)
        rw [hl] at hread
        obtain ⟨l', hl', rfl⟩ := Option.map_eq_some_iff.mp hread
        rw [hx, hl', ← hint]
        rfl
    | boolean | floating | string | datetime | array | table => rfl

theorem integers_kept_iff {v : Toml D} {b : List Int} (hb : ∀ i ∈ b, FitsInt i) :
    ((v.getVector (Toml.getInt int)).map fun l =>
          (Setting.ints (l.map (·.toInt)) : Setting F)).getD (.ints b) =
        ((v.getVector Toml.getInteger).map .ints).getD (.ints b) ↔
      ∀ l, v.getVector Toml.getInteger = some l → ∀ i ∈ l, FitsInt i := by
  cases v with
  | array xs =>
    show ((xs.mapM (Toml.getInt int)).map _).getD _ = ((xs.mapM Toml.getInteger).map _).getD _ ↔
      ∀ l, xs.mapM Toml.getInteger = some l → ∀ i ∈ l, FitsInt i
    constructor
    · intro h l hl
      rw [hl] at h
      cases hread : xs.mapM (Toml.getInt int) with
      | none =>
        rw [hread] at h
        have hbl : b = l := by injection h
        exact hbl ▸ hb
      | some l' =>
        rw [hread] at h
        have hl' : l'.map (·.toInt) = l := by injection h
        exact hl' ▸ ints_fit l'
    · intro h
      rw [← integers_of_fits int h, Option.map_map]
      rfl
  | boolean | integer | floating | string | datetime | table =>
    refine iff_of_true rfl ?_
    intro l hl
    cases hl

variable [Doubles D F]

/-- The code takes what a value means exactly if it is kept. -/
theorem kept_iff {k : Kind} {v : Toml D} {b : Setting F} (hb : k.Holds b)
    (hplain : k.plain b = true) :
    (k.read env int v).getD b = (k.means env v).getD b ↔ k.Kept env v := by
  cases k with
  | string | boolean | floating | floatings => exact iff_of_true rfl trivial
  | literal =>
    show (v.getString.map Setting.str).getD b =
        (v.getString.map fun s => .str (resolveSecrets env s)).getD b ↔
      ∀ s, v.getString = some s → resolveSecrets env s = s
    cases hs : v.getString with
    | none =>
      refine iff_of_true rfl ?_
      intro s hs
      cases hs
    | some s =>
      show Setting.str s = .str (resolveSecrets env s) ↔ _
      simp only [Option.some_inj, forall_eq', Setting.str.injEq]
      exact eq_comm
  | strings =>
    show ((v.getVector Toml.getString).map Setting.strs).getD b =
        ((v.getVector Toml.getString).map fun l => .strs (l.map (resolveSecrets env))).getD b ↔
      ∀ l, v.getVector Toml.getString = some l → ∀ s ∈ l, resolveSecrets env s = s
    cases hl : v.getVector Toml.getString with
    | none =>
      refine iff_of_true rfl ?_
      intro l hl
      cases hl
    | some l =>
      simp only [Option.some_inj, forall_eq']
      exact strings_kept_iff env
  | unread =>
    cases b with
    | bool b =>
      obtain rfl : b = false := Bool.not_eq_true' _ ▸ hplain
      show Setting.bool false = (v.getBool.map Setting.bool).getD (.bool false) ↔
        v.getBool ≠ some true
      cases v.getBool with
      | none => exact iff_of_true rfl (by decide)
      | some x => cases x <;> simp
    | str | strs | int | ints | float | floats => cases hb
  | integer =>
    cases b with
    | int j =>
      exact integer_kept_iff int hb fitsInt_toInt fun i => getInt_of_fits int
    | str | strs | bool | ints | float | floats => cases hb
  | port =>
    cases b with
    | int j =>
      exact integer_kept_iff int hb (fun x => fitsPort_toNat _)
        fun i => getPort_of_fits int
    | str | strs | bool | ints | float | floats => cases hb
  | integers =>
    cases b with
    | ints l =>
      exact integers_kept_iff int hb
    | str | strs | bool | int | float | floats => cases hb

end Kind

end TruellmEngine.Config
