import GlobalpingProbe.Foundation.Numeral
import Mathlib.Algebra.Order.Floor.Ring
import Mathlib.Algebra.Order.Round
import Mathlib.Data.Nat.Sqrt
import Mathlib.Data.Rat.Floor

/-! # Floating point with exact finite values

The finite values are the rationals, so that no operation rounds or overflows; infinities and
nan behave as in the standard for floating point. There is one zero.
-/
namespace Foundation

inductive F64 where
  | finite (q : ℚ)
  | inf (negative : Bool)
  | nan
  deriving DecidableEq, Repr

namespace F64

def zero : F64 := finite 0

def add : F64 → F64 → F64
  | finite a, finite b => finite (a + b)
  | nan, _ | _, nan => nan
  | inf s, inf t => if s = t then inf s else nan
  | inf s, finite _ | finite _, inf s => inf s

def neg : F64 → F64
  | finite a => finite (-a)
  | inf s => inf (!s)
  | nan => nan

def sub (x y : F64) : F64 := x.add y.neg

def abs : F64 → F64
  | finite a => finite |a|
  | inf _ => inf false
  | nan => nan

def sq : F64 → F64
  | finite a => finite (a * a)
  | inf _ => inf false
  | nan => nan

/-- The smaller one; a nan gives way to the other operand. -/
def min : F64 → F64 → F64
  | nan, x | x, nan => x
  | inf true, _ | _, inf true => inf true
  | inf false, x | x, inf false => x
  | finite a, finite b => finite (Min.min a b)

def max : F64 → F64 → F64
  | nan, x | x, nan => x
  | inf false, _ | _, inf false => inf false
  | inf true, x | x, inf true => x
  | finite a, finite b => finite (Max.max a b)

/-- Division by a positive whole number. -/
def divNat (x : F64) (n : ℕ) : F64 :=
  match x with
  | finite a => finite (a / n)
  | inf s => inf s
  | nan => nan

def sum (xs : List F64) : F64 := xs.foldl add zero

/-- The nearest whole number, half away from zero. -/
def roundAway (q : ℚ) : ℤ := if 0 ≤ q then ⌊q + 1 / 2⌋ else -⌊-q + 1 / 2⌋

/-- Rounded to one decimal. -/
def r1 : F64 → F64
  | finite q => finite (roundAway (q * 10) / 10)
  | inf s => inf s
  | nan => nan

/-- The square root, which need not be rational, rounded to one decimal: `n` tenths where `n`
is the last number with `n - 1/2` at most ten times the root. -/
def r1Sqrt : F64 → F64
  | finite q => if q < 0 then nan else finite (((Nat.sqrt ⌊400 * q⌋₊ + 1) / 2 : ℕ) / 10)
  | inf false => inf false
  | inf true => nan
  | nan => nan

/-- With one decimal, for values that have no more. -/
def toText : F64 → List Char
  | finite q =>
    let tenths := (roundAway (q * 10)).natAbs
    (if q < 0 then ['-'] else []) ++ (Nat.repr (tenths / 10)).toList ++ '.' ::
      (Nat.repr (tenths % 10)).toList
  | inf negative => (if negative then ['-'] else []) ++ "inf".toList
  | nan => "NaN".toList

/-- Figures with a point before, after or between them, and at least one figure. -/
def parseMantissa (s : List Char) : Option ℚ :=
  let value (whole fraction : List Char) : Option ℚ :=
    if whole ++ fraction ≠ [] ∧ (whole ++ fraction).all (isDigitOf 10) then
      some (mkRat (numeralValue 10 (whole ++ fraction)) (10 ^ fraction.length))
    else none
  match s.splitOn '.' with
  | [whole] => value whole []
  | [whole, fraction] => value whole fraction
  | _ => none

/-- A sign in front, if there is one, and what follows it. -/
def spanSign : List Char → Bool × List Char
  | '-' :: s => (true, s)
  | '+' :: s => (false, s)
  | s => (false, s)

/-- The power of ten that an exponent stands for, its letter included. -/
def parseExponent : List Char → Option ℚ
  | [] => some 1
  | _ :: s =>
    let (negative, ds) := spanSign s
    if ds ≠ [] ∧ ds.all (isDigitOf 10) then
      let power : ℚ := 10 ^ numeralValue 10 ds
      some (if negative then power⁻¹ else power)
    else none

/-- The number that a text stands for, as `f64::from_str` reads it. -/
def parse (s : List Char) : Option F64 :=
  let (negative, body) := spanSign s
  let lower := body.map Char.toLower
  if lower = "inf".toList ∨ lower = "infinity".toList then some (inf negative)
  else if lower = "nan".toList then some nan
  else do
    let isLetter := fun c => c = 'e' || c = 'E'
    let mantissa ← parseMantissa (body.takeWhile (!isLetter ·))
    let power ← parseExponent (body.dropWhile (!isLetter ·))
    return finite (if negative then -(mantissa * power) else mantissa * power)

end F64
end Foundation
