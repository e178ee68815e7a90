import VaultKernel.Text.Numeral
import VaultKernel.Text.Split
import VaultKernel.Toml.Quoted
import VaultKernel.Toml.Value

/-!
# Numbers

An integer has decimal digits after an optional sign, or digits of the base that `0x`, `0o` or `0b`
tells. A number with a fraction or an exponent is decimal. Underscores may divide the digits.

What follows the first underscore of a decimal integer is looked at only next to underscores when
the integer is read; `Numeral.value?` tells whether all of it are digits.
-/

namespace VaultKernel.Toml

/-- The sign in front of a number and what follows it. -/
def splitSign : List Char → Bool × List Char
  | '-' :: rest => (true, rest)
  | '+' :: rest => (false, rest)
  | cs => (false, cs)

/-! ## Underscores -/

/-- Whether every underscore stands between two digits. -/
def underscoresFit (isDigit : Char → Bool) (cs : List Char) : Bool :=
  let runs := Text.pieces '_' cs
  runs.dropLast.all (·.getLast?.any isDigit) && runs.tail.all (·.head?.any isDigit)

/-- The text without underscores. -/
def withoutUnderscores (cs : List Char) : List Char := cs.filter (· ≠ '_')

/-! ## Integers -/

/-- The value of a digit in a base up to sixteen. -/
def digitBelow? (base : Nat) (c : Char) : Option Nat := (hexValue? c).filter (· < base)

/-- Whether a character is a digit of a base up to sixteen. -/
def isDigitBelow (base : Nat) (c : Char) : Bool := (digitBelow? base c).isSome

/-- The value of an integer, if it has digits and nothing else after its sign. -/
def Numeral.value? (n : Numeral) : Option Int :=
  let (negative, digits) := splitSign n.text
  if digits.isEmpty then none
  else
    (digitsIn? (digitBelow? n.base) n.base digits).map fun m =>
      if negative then -(m : Int) else (m : Int)

/-- The integer whose digits, possibly none, follow the mark of a base. -/
def numeralIn? (base : Nat) (digits : List Char) : Option Numeral :=
  if digits.all (fun c => c = '_' || isDigitBelow base c) &&
      underscoresFit (isDigitBelow base) digits then
    some ⟨base, withoutUnderscores digits⟩
  else none

/-- The decimal integer `text`, of which `body` follows the sign. It has no leading zero. -/
def decimal? (text body : List Char) : Option Numeral :=
  let leads := body = ['0'] || (!body.isEmpty && body.head? ≠ some '0')
  if leads && underscoresFit (isDigitBelow 16) text then some ⟨10, withoutUnderscores text⟩
  else none

/-! ## Fractions and exponents -/

/-- A digit or an underscore. -/
def isDigitOrUnderscore (c : Char) : Bool := Text.isDigit c || c = '_'

/-- Drops digits and underscores in front, among which there is a digit. -/
def dropDigits? (cs : List Char) : Option (List Char) :=
  if (cs.takeWhile isDigitOrUnderscore).any Text.isDigit then
    some (cs.dropWhile isDigitOrUnderscore)
  else none

/-- Drops the whole part of a number: a single digit, or digits without a leading zero. -/
def dropWhole? (cs : List Char) : Option (List Char) :=
  let digits := (cs.takeWhile isDigitOrUnderscore).filter Text.isDigit
  if cs.head? = some '0' && digits.length ≠ 1 then none else dropDigits? cs

/-- Drops a fraction, which may be absent. -/
def dropFraction? : List Char → Option (List Char)
  | '.' :: cs => dropDigits? cs
  | cs => some cs

/-- Drops an exponent, which may be absent. -/
def dropExponent? : List Char → Option (List Char)
  | 'e' :: cs => dropDigits? (splitSign cs).2
  | 'E' :: cs => dropDigits? (splitSign cs).2
  | cs => some cs

/-- Whether a text is a number without a sign. -/
def isNumber (cs : List Char) : Bool :=
  (dropWhole? cs >>= dropFraction? >>= dropExponent?) = some []

/-- Whether a character tells that a number has a fraction or an exponent. -/
def isFloatMark (c : Char) : Bool := c = '.' || c = 'e' || c = 'E'

/-- Whether `text`, of which `body` follows the sign, is a number with a fraction or an
exponent. -/
def isFloat (text body : List Char) : Bool :=
  body.any isFloatMark && isNumber body && underscoresFit Text.isDigit text

end VaultKernel.Toml
