import AgenticPlatform.Doubles
import Mathlib.Data.List.DropRight
import Mathlib.Data.Nat.Log

/-!
# Doubles as text

`'{:g}'` and `str` of a double, and `float` of a text. `'{:g}'` writes six significant digits,
so a double that needs more is read back as another one.
-/

namespace AgenticPlatform

namespace Number

def decimalValue (digits exponent : Int) : ℚ := digits * 10 ^ exponent

/-! ### Writing -/

/-- A number with zeros before it. -/
def padded (width n : Nat) : List Char :=
  List.replicate (width - (toString n).toList.length) '0' ++ (toString n).toList

/-- What stands after the point, and the point if anything does. -/
def fraction (width n : Nat) : List Char :=
  let rest := (padded width n).rdropWhile (· == '0')
  if rest = [] then [] else '.' :: rest

/-- `width + 1` significant digits, the first of which stands for `10 ^ first`; from
    `10 ^ limit` on, and for small numbers, with an exponent. -/
def notationOf (width digits : Nat) (first limit : Int) : List Char :=
  if -4 ≤ first ∧ first < limit then
    let places := (width - first).toNat
    (toString (digits * 10 ^ (first - width).toNat / 10 ^ places)).toList ++
      fraction places (digits % 10 ^ places)
  else
    (toString (digits / 10 ^ width)).toList ++ fraction width (digits % 10 ^ width) ++
      'e' :: (if first < 0 then '-' else '+') :: padded 2 first.natAbs

/-- How many digits a positive number has. -/
def digitCount (n : Nat) : Nat := Nat.log 10 n + 1

/-- Six significant digits of a positive decimal, ties to even, and what the first stands
    for. -/
def sixDigits (digits : Nat) (exponent : Int) : Nat × Int :=
  let first := exponent + digitCount digits - 1
  let rounded := nearest (digits * 10 ^ 6) (10 ^ digitCount digits)
  if rounded = 10 ^ 6 then (10 ^ 5, first + 1) else (rounded, first)

/-- The digits of a decimal without its sign, as `'{:g}'` writes them. -/
def generalDigits (digits : Nat) (exponent : Int) : List Char :=
  if digits = 0 then ['0']
  else
    let (six, first) := sixDigits digits exponent
    notationOf 5 six first 6

/-! ### Reading -/

/-- Digits, possibly none, with the number of them. -/
def readPart (chars : List Char) : Option (Nat × Nat) :=
  if chars = [] then some (0, 0)
  else (readNumber 10 chars).map fun n => (n, (chars.filter (· ≠ '_')).length)

/-- What stands before the first character that `stop` holds of, and what stands after it. -/
def splitAtFirst (stop : Char → Bool) (chars : List Char) : List Char × Option (List Char) :=
  let before := chars.takeWhile fun c => !stop c
  match chars.dropWhile fun c => !stop c with
  | [] => (before, none)
  | _ :: after => (before, some after)

def readExponent : List Char → Option Int
  | '-' :: rest => (readNumber 10 rest).map fun n => -(n : Int)
  | '+' :: rest => (readNumber 10 rest).map Int.ofNat
  | chars => (readNumber 10 chars).map Int.ofNat

/-- A decimal without a sign: digits before and after the point, one of which may be missing,
    and an exponent. -/
def readDecimal (chars : List Char) : Option (Nat × Int) := do
  let (mantissa, power) := splitAtFirst (fun c => c == 'e' || c == 'E') chars
  let (whole, rest) := splitAtFirst (· == '.') mantissa
  let exponent ← power.elim (some 0) readExponent
  let (high, count) ← readPart whole
  let (low, places) ← readPart (rest.getD [])
  if count + places = 0 then none
  else some (high * 10 ^ places + low, exponent - places)

end Number

namespace Binary64

open Number

/-- A power of two has as many decimal places as it has binary ones. -/
def exact (number : Nat × Int) : Nat × Int :=
  (number.1 * 2 ^ number.2.toNat * 5 ^ (-number.2).toNat, -((-number.2).toNat : Int))

/-- The sign and the digits after it. -/
def withSign (negative : Bool) (chars : List Char) : String :=
  String.ofList ((if negative then ['-'] else []) ++ chars)

/-- `f"{value:g}"`. -/
def general : Binary64 → String
  | .nan => "nan"
  | .infinite negative => withSign negative "inf".toList
  | .finite negative number => withSign negative (generalDigits (exact number).1 (exact number).2)

/-- A decimal with so many significant digits: the nearest one, and its neighbours. -/
def candidates (digits : Nat) (exponent : Int) (width : Nat) : List (Nat × Int) :=
  let shift : Int := digitCount digits - width
  let high := digits * 10 ^ (-shift).toNat
  let low := 10 ^ shift.toNat
  [nearest high low, high / low, high / low + 1].map fun n => (n, exponent + shift)

/-- The shortest decimal that is read as this number, and the nearest one of them. -/
def shortest (number : Nat × Int) : Nat × Int :=
  let (digits, exponent) := exact number
  (((List.range 17).flatMap fun width => candidates digits exponent (width + 1)).find?
    fun decimal => dyadic (rounding decimal.1 decimal.2) = dyadic number).getD (digits, exponent)

/-- `str(value)`: as many digits as it takes, and a point or an exponent among them. -/
def str : Binary64 → String
  | .nan => "nan"
  | .infinite negative => withSign negative "inf".toList
  | .finite negative number =>
      let (digits, exponent) := shortest number
      let width := digitCount digits - 1
      let chars := if digits = 0 then ['0'] else notationOf width digits (exponent + width) 16
      withSign negative (if '.' ∈ chars ∨ 'e' ∈ chars then chars else chars ++ ['.', '0'])

/-- A number without a sign. -/
def readUnsigned (negative : Bool) (chars : List Char) : Option Binary64 :=
  let name := String.ofList (chars.map Char.toLower)
  if name = "inf" ∨ name = "infinity" then some (.infinite negative)
  else if name = "nan" then some .nan
  else (readDecimal chars).map fun number => .ofDecimal negative number.1 number.2

/-- `float(text)`. -/
def parse (text : String) : Option Binary64 :=
  match (strip text).toList with
  | '-' :: rest => readUnsigned true rest
  | '+' :: rest => readUnsigned false rest
  | chars => readUnsigned false chars

end Binary64

/-- An `int` or a `float`. -/
inductive Number where
  | int (n : Int)
  | float (value : Binary64)

namespace Number

/-- `number < bound`; an integer is compared as it is. -/
def below (bound : Int) : Number → Bool
  | .int n => decide (n < bound)
  | .float value => value.lt (.ofInt bound)

theorem below_congr {left right : Binary64} (h : left.Same right) (bound : Int) :
    (Number.float left).below bound = (Number.float right).below bound :=
  Binary64.lt_congr h

/-- `f"{number:g}"`. -/
def general : Number → String
  | .int n => (Binary64.ofInt n).general
  | .float value => value.general

end Number

end AgenticPlatform
