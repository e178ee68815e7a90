import VaultKernel.Decimal.Binary
import VaultKernel.Text.Numeral

/-!
# Reading floating point numbers

A number is an optional sign and then digits with an optional point among or around them and an
optional exponent, or one of the words for infinity and for no number in any letter case. The result
is the nearest bit pattern.
-/

namespace VaultKernel.BinaryFormat

/-- A letter in lower case; other characters as they are. -/
def lowerLetter (c : Char) : Char :=
  if 65 ≤ c.toNat ∧ c.toNat ≤ 90 then Char.ofNat (c.toNat + 32) else c

/-- Reads the exponent that ends a number; none is zero. -/
def exponent? : List Char → Option Int
  | [] => some 0
  | c :: rest => if c = 'e' ∨ c = 'E' then Text.integer? rest else none

/-- The pattern nearest to `coefficient * 10 ^ exponent`. A power of ten far outside the range of
every format is infinity or zero without being computed. -/
def roundDecimal (f : BinaryFormat) (coefficient : Nat) (exponent : Int) : Nat :=
  let top := exponent + Text.digitCount coefficient
  if coefficient = 0 ∨ top < -400 then 0
  else if 400 < top then f.infinity
  else f.roundRatio (coefficient * Nat.pow 10 exponent.toNat) (Nat.pow 10 (-exponent).toNat)

/-- Reads digits with an optional point and exponent. -/
def magnitude? (f : BinaryFormat) (cs : List Char) : Option Nat := do
  let whole := cs.takeWhile Text.isDigit
  let afterWhole := cs.dropWhile Text.isDigit
  let afterPoint := if afterWhole.head? = some '.' then afterWhole.drop 1 else []
  let fraction := afterPoint.takeWhile Text.isDigit
  let rest :=
    if afterWhole.head? = some '.' then afterPoint.dropWhile Text.isDigit else afterWhole
  let coefficient ← Text.natural? (whole ++ fraction)
  let exponent ← exponent? rest
  return f.roundDecimal coefficient (exponent - fraction.length)

/-- Reads a number without its sign. -/
def unsigned? (f : BinaryFormat) (cs : List Char) : Option Nat :=
  let word := String.ofList (cs.map lowerLetter)
  if word = "inf" ∨ word = "infinity" then some f.infinity
  else if word = "nan" then some f.nan
  else f.magnitude? cs

/-- Reads the text of a number into its bit pattern. -/
def read? (f : BinaryFormat) (text : String) : Option Nat :=
  match text.toList with
  | '-' :: rest => (f.unsigned? rest).map (f.signed true)
  | '+' :: rest => f.unsigned? rest
  | cs => f.unsigned? cs

end VaultKernel.BinaryFormat
