/-!
# Binary floating point

Bit patterns of IEEE 754 numbers and the exact numbers they stand for. `decode` opens a pattern into
a sign, a significand and a power of two; `roundRatio` finds the pattern nearest to a ratio of two
natural numbers, a tie going to the even significand and an excess to infinity. All arithmetic is on
natural numbers, so no step of it is itself rounded.
-/

namespace VaultKernel

/-- The widths of the fraction and exponent fields of a bit pattern. -/
structure BinaryFormat where
  fractionBits : Nat
  exponentBits : Nat

/-- What a bit pattern stands for; a finite number is `significand * 2 ^ exponent`. -/
inductive BinaryNumber where
  | nan
  | infinite (negative : Bool)
  | finite (negative : Bool) (significand : Nat) (exponent : Int)
  deriving DecidableEq, Repr

namespace BinaryFormat

/-- Patterns of 32 bits. -/
def single : BinaryFormat := ⟨23, 8⟩

/-- Patterns of 64 bits. -/
def double : BinaryFormat := ⟨52, 11⟩

/-- The power of two that one unit of the smallest numbers is worth. -/
def unitExponent (f : BinaryFormat) : Int :=
  2 - (Nat.pow 2 (f.exponentBits - 1) : Nat) - (f.fractionBits : Int)

/-- The pattern of positive infinity. -/
def infinity (f : BinaryFormat) : Nat := (Nat.pow 2 f.exponentBits - 1) * Nat.pow 2 f.fractionBits

/-- The pattern of a number that is not one: infinity with the first fraction bit set. -/
def nan (f : BinaryFormat) : Nat := f.infinity + Nat.pow 2 (f.fractionBits - 1)

/-- The bit that makes a pattern negative. -/
def signBit (f : BinaryFormat) : Nat := Nat.pow 2 (f.fractionBits + f.exponentBits)

/-- Adds the sign to the pattern of a magnitude. -/
def signed (f : BinaryFormat) (negative : Bool) (magnitude : Nat) : Nat :=
  if negative then f.signBit + magnitude else magnitude

/-- The number that a pattern stands for. -/
def decode (f : BinaryFormat) (bits : Nat) : BinaryNumber :=
  let negative := bits.testBit (f.fractionBits + f.exponentBits)
  let magnitude := bits % f.signBit
  let field := magnitude / Nat.pow 2 f.fractionBits
  let fraction := magnitude % Nat.pow 2 f.fractionBits
  if field = Nat.pow 2 f.exponentBits - 1 then
    if fraction = 0 then .infinite negative else .nan
  else if field = 0 then .finite negative fraction f.unitExponent
  else .finite negative (fraction + Nat.pow 2 f.fractionBits) (f.unitExponent + field - 1)

/-- The integer nearest to `num / den`, a tie going to the even one. -/
def roundDiv (num den : Nat) : Nat :=
  let quotient := num / den
  let rest := num % den
  if den < 2 * rest ∨ (2 * rest = den ∧ quotient % 2 = 1) then quotient + 1 else quotient

/-- The exponent that gives `num / den` a significand of full width, or the least one there is. -/
def exponentFor (f : BinaryFormat) (num den : Nat) : Int :=
  let guess : Int := (num.log2 : Int) - den.log2 - f.fractionBits
  let shift := guess + f.fractionBits
  let full := den * Nat.pow 2 shift.toNat ≤ num * Nat.pow 2 (-shift).toNat
  max (if full then guess else guess - 1) f.unitExponent

/-- The pattern of the number nearest to `num / den`. -/
def roundRatio (f : BinaryFormat) (num den : Nat) : Nat :=
  if num = 0 then 0
  else
    let exponent := f.exponentFor num den
    let significand := roundDiv (num * Nat.pow 2 (-exponent).toNat) (den * Nat.pow 2 exponent.toNat)
    min ((exponent - f.unitExponent).toNat * Nat.pow 2 f.fractionBits + significand) f.infinity

/-- The pattern of the number nearest to an integer. -/
def ofInt (f : BinaryFormat) (z : Int) : Nat := f.signed (z < 0) (f.roundRatio z.natAbs 1)

/-- The pattern nearest to a decoded number. -/
def ofNumber (f : BinaryFormat) : BinaryNumber → Nat
  | .nan => f.nan
  | .infinite negative => f.signed negative f.infinity
  | .finite negative significand exponent =>
    f.signed negative
      (f.roundRatio (significand * Nat.pow 2 exponent.toNat) (Nat.pow 2 (-exponent).toNat))

end BinaryFormat

end VaultKernel
