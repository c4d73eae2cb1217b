/-
  TOML documents, and the calls of toml11 that the configuration is read with.

  `find_or` gives the default for a value of another type, `contains` throws for what is no
  table, `get<int>` of an integer outside of `int` is left open. An array is converted as a
  whole. The tables of a document list their entries in the order in which they are iterated.
-/
import TruellmEngine.Lib.Overlay
import Mathlib.Data.Rat.Defs

namespace TruellmEngine.Config

/-- `D` is `double`. -/
inductive Toml (D : Type) where
  | boolean (b : Bool)
  | integer (i : Int64)
  | floating (d : D)
  | string (s : String)
  | datetime (text : String)
  | array (xs : List (Toml D))
  | table (entries : List (String × Toml D))

inductive ConfigError where
  | typeError
  | outOfRange
  | validation (message : String)
  deriving DecidableEq

/-- `float`, with the literals of the source. -/
class Floating (F : Type) extends OfScientific F where
  lt : F → F → Bool

/-- The conversions between `float` and `double`, and `std::to_string`. -/
class Doubles (D : Type) (F : outParam Type) where
  narrow : D → F
  widen : F → D
  narrow_widen : ∀ x, narrow (widen x) = x
  text : D → String

/-- `get<int>` -/
structure GetInt where
  get : Int64 → Option Int32
  get_of_fits : ∀ i, -2147483648 ≤ i.toInt → i.toInt < 2147483648 → get i = some i.toInt32

namespace Toml

variable {D F : Type}

def at? (v : Toml D) (key : String) : Option (Toml D) :=
  match v with
  | .table entries => entries.lookup key
  | _ => none

def contains (v : Toml D) (key : String) : Except ConfigError Bool :=
  match v with
  | .table _ => .ok (v.at? key).isSome
  | _ => .error .typeError

def find (v : Toml D) (key : String) : Except ConfigError (Toml D) :=
  match v with
  | .table _ => (v.at? key).elim (.error .outOfRange) .ok
  | _ => .error .typeError

def findOr {α : Type} (get : Toml D → Option α) (v : Toml D) (key : String) (dflt : α) : α :=
  ((v.at? key).bind get).getD dflt

def getBool : Toml D → Option Bool
  | .boolean b => some b
  | _ => none

def getString : Toml D → Option String
  | .string s => some s
  | _ => none

def getDouble : Toml D → Option D
  | .floating d => some d
  | _ => none

def getInt (int : GetInt) : Toml D → Option Int32
  | .integer i => int.get i
  | _ => none

/-- `get<std::vector<T>>` -/
def getVector {α : Type} (get : Toml D → Option α) : Toml D → Option (List α)
  | .array xs => xs.mapM get
  | _ => none

end Toml

end TruellmEngine.Config
