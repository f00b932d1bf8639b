import Mathlib.Data.List.TakeWhile

/-! # Numerals in a radix

Digits are read as they stand in a text: the decimal digits and then the letters, in either
case. A numeral is a run of digits, and its value is that of the run, most significant first.
-/
namespace Foundation

/-- The value of a figure or letter as a digit, if it is one. -/
def digitCode (c : Char) : Option ℕ :=
  if c.isDigit then some (c.toNat - '0'.toNat)
  else if c.isLower then some (c.toNat - 'a'.toNat + 10)
  else if c.isUpper then some (c.toNat - 'A'.toNat + 10)
  else none

def toDigit (radix : ℕ) (c : Char) : Option ℕ := (digitCode c).filter (· < radix)

def isDigitOf (radix : ℕ) (c : Char) : Bool := (toDigit radix c).isSome

def numeralValue (radix : ℕ) (ds : List Char) : ℕ :=
  ds.foldl (fun value c => value * radix + (toDigit radix c).getD 0) 0

/-- The longest run of digits in front, with what follows it. -/
def spanDigits (radix : ℕ) (s : List Char) : List Char × List Char :=
  (s.takeWhile (isDigitOf radix), s.dropWhile (isDigitOf radix))

theorem spanDigits_append (radix : ℕ) (s : List Char) :
    (spanDigits radix s).1 ++ (spanDigits radix s).2 = s := List.takeWhile_append_dropWhile

theorem spanDigits_digits {radix : ℕ} {s : List Char} {c : Char}
    (h : c ∈ (spanDigits radix s).1) : isDigitOf radix c = true := List.mem_takeWhile_imp h

theorem isDigitOf_mono {radix radix' : ℕ} {c : Char} (hle : radix ≤ radix')
    (h : isDigitOf radix c = true) : isDigitOf radix' c = true := by
  obtain ⟨d, hd⟩ := Option.isSome_iff_exists.mp h
  obtain ⟨hcode, hlt⟩ := Option.filter_eq_some_iff.mp hd
  have hlt : d < radix' := (of_decide_eq_true hlt).trans_le hle
  exact Option.isSome_iff_exists.mpr ⟨d, Option.filter_eq_some_iff.mpr ⟨hcode, by simpa using hlt⟩⟩

theorem isAlphanum_of_isDigitOf {radix : ℕ} {c : Char} (h : isDigitOf radix c = true) :
    c.isAlphanum = true := by
  obtain ⟨d, hd⟩ := Option.isSome_iff_exists.mp h
  have hcode := (Option.filter_eq_some_iff.mp hd).1
  unfold digitCode at hcode
  change (c.isUpper || c.isLower || c.isDigit) = true
  cases hdig : c.isDigit with
  | true => simp
  | false =>
    cases hlow : c.isLower with
    | true => simp
    | false =>
      cases hup : c.isUpper with
      | true => simp
      | false => simp [hdig, hlow, hup] at hcode

theorem ne_of_isDigitOf {radix : ℕ} {c d : Char} (h : isDigitOf radix c = true)
    (hd : d.isAlphanum = false) : c ≠ d := by
  rintro rfl
  rw [isAlphanum_of_isDigitOf h] at hd
  cases hd

end Foundation
