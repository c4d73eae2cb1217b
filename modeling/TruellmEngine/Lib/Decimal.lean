/-
  `std::stoll` and `std::to_string`: 64-bit integers in decimal, with the space and the sign that
  are read before the digits and the rest that is ignored behind them.
-/
import Mathlib.Algebra.Order.Ring.Int
import TruellmEngine.Lib.CanonicalJson

namespace TruellmEngine.Lib

open CanonicalJson

/-- `isspace` -/
def isSpace (c : Char) : Bool := c = ' ' || (9 ≤ c.toNat && c.toNat ≤ 13)

/-- Whether there is a minus, and what follows the sign. -/
def readSign : List Char → Bool × List Char
  | '-' :: cs => (true, cs)
  | '+' :: cs => (false, cs)
  | cs => (false, cs)

def inRange (i : Int) : Option Int64 :=
  if -2 ^ 63 ≤ i ∧ i < 2 ^ 63 then some (Int64.ofInt i) else none

/-- Nothing where it throws: without digits, and out of range. -/
def stoll (s : String) : Option Int64 :=
  let signed := readSign (s.toList.dropWhile isSpace)
  (readNat signed.2).bind fun n => inRange (if signed.1 then -n.1 else n.1)

def decimal (x : Int64) : String := toString x.toInt

theorem digit_unsigned {c : Char} (h : c.isDigit = true) :
    isSpace c = false ∧ ∀ cs, readSign (c :: cs) = (false, c :: cs) := by
  have hlow : 48 ≤ c.toNat := Char.isDigit_iff_toNat.mp h |>.1
  constructor
  · unfold isSpace
    rw [Bool.or_eq_false_iff]
    constructor
    · refine decide_eq_false fun hc => ?_
      rw [hc] at hlow
      exact absurd hlow (by decide)
    · simp
      omega
  · intro cs
    unfold readSign
    split
    · rename_i heq
      obtain ⟨rfl, -⟩ := List.cons.inj heq
      exact absurd hlow (by decide)
    · rename_i heq
      obtain ⟨rfl, -⟩ := List.cons.inj heq
      exact absurd hlow (by decide)
    · rfl

theorem readNat_toDigits (n : Nat) : readNat (Nat.toDigits 10 n) = some (n, []) := by
  have hnone : NoDigit [] := fun c hc => by cases hc
  have h := readNat_digits n hnone
  rwa [List.append_nil] at h

theorem inRange_toInt (x : Int64) : inRange x.toInt = some x := by
  unfold inRange
  rw [if_pos ⟨x.le_toInt, x.toInt_lt⟩, Int64.ofInt_toInt]

/-- What is written is read. -/
theorem stoll_decimal (x : Int64) : stoll (decimal x) = some x := by
  have hx := inRange_toInt x
  unfold stoll decimal
  cases hint : x.toInt with
  | ofNat n =>
    rw [hint] at hx
    have htext : (toString (Int.ofNat n)).toList = Nat.toDigits 10 n := String.toList_ofList
    obtain ⟨c, cs, hdigits⟩ := List.exists_cons_of_ne_nil (Nat.toDigits_ne_nil (b := 10) (n := n))
    have hc : c.isDigit = true := digits_isDigit n c (hdigits ▸ List.mem_cons_self)
    obtain ⟨hspace, hsign⟩ := digit_unsigned hc
    have hread := readNat_toDigits n
    rw [hdigits] at hread
    rw [htext, hdigits, List.dropWhile_cons_of_neg (by rw [hspace]; decide), hsign]
    dsimp only
    rw [hread, Option.bind_some, if_neg Bool.false_ne_true]
    exact hx
  | negSucc n =>
    rw [hint] at hx
    have htext : (toString (Int.negSucc n)).toList = '-' :: Nat.toDigits 10 (n + 1) := by
      change ("-" ++ Nat.repr (n + 1)).toList = _
      rw [String.toList_append]
      exact congrArg ('-' :: ·) String.toList_ofList
    rw [htext, List.dropWhile_cons_of_neg (by decide)]
    change ((readNat (Nat.toDigits 10 (n + 1))).bind _) = _
    rw [readNat_toDigits, Option.bind_some]
    exact (congrArg inRange (Int.negSucc_eq n).symm).trans hx

end TruellmEngine.Lib
