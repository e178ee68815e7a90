import VaultKernel.Decimal.Binary
import VaultKernel.Text.Numeral

/-!
# The fewest digits that read back

A binary number stands for every real number that rounds to it. `shortest` finds, among the decimals
in that interval, one with the fewest digits and, of those, the nearest to the number; of two
equally near ones it takes the larger. It tries one digit, two digits and so on, looking at the two
neighbours of the number on each grid, in exact arithmetic.
-/

namespace VaultKernel

/-- The number `coefficient * 10 ^ exponent`. -/
structure Decimal where
  coefficient : Nat
  exponent : Int
  deriving DecidableEq, Repr

namespace Decimal

/-- Moves up to `fuel` trailing zeros of the coefficient into the exponent. -/
def trim : (fuel : Nat) → Decimal → Decimal
  | 0, d => d
  | fuel + 1, d =>
    if d.coefficient ≠ 0 ∧ d.coefficient % 10 = 0 then
      trim fuel ⟨d.coefficient / 10, d.exponent + 1⟩
    else d

/-- The real numbers that round to `value / unit`, which lie between `low / unit` and `high / unit`;
the ends belong to them exactly when `closed` is true. -/
structure Interval where
  low : Nat
  value : Nat
  high : Nat
  unit : Nat
  closed : Bool

/-- The interval of `significand * 2 ^ exponent`. It reaches half a step to both sides, and a
quarter of a step down from a power of two, below which the steps are half as wide. -/
def Interval.around (f : BinaryFormat) (significand : Nat) (exponent : Int) : Interval :=
  let scale := Nat.pow 2 exponent.toNat
  let down := if significand = Nat.pow 2 f.fractionBits then 1 else 2
  { low := (4 * significand - down) * scale
    value := 4 * significand * scale
    high := (4 * significand + 2) * scale
    unit := 4 * Nat.pow 2 (-exponent).toNat
    closed := significand % 2 = 0 }

/-- The power of ten just above `num / den`: `10 ^ (k - 1) ≤ num / den < 10 ^ k`. -/
def magnitude (num den : Nat) : Int :=
  if den ≤ num then (Text.digitCount (num / den) : Int)
  else 1 - (Text.digitCount ((den - 1) / num) : Int)

/-- The neighbour of the interval's value on the grid of `10 ^ step` that lies in the interval; the
nearer one if both do. -/
def Interval.onGrid (i : Interval) (step : Int) : Option Decimal :=
  let up := Nat.pow 10 step.toNat * i.unit
  let down := Nat.pow 10 (-step).toNat
  let inside (c : Nat) : Bool :=
    if i.closed then i.low * down ≤ c * up && c * up ≤ i.high * down
    else i.low * down < c * up && c * up < i.high * down
  let below := i.value * down / up
  let nearer := if 2 * (i.value * down) < (2 * below + 1) * up then below else below + 1
  match inside below, inside (below + 1) with
  | true, true => some ⟨nearer, step⟩
  | true, false => some ⟨below, step⟩
  | false, true => some ⟨below + 1, step⟩
  | false, false => none

/-- The shortest decimal for a positive binary number; seventeen digits suffice for 64 bits. -/
def shortest (f : BinaryFormat) (significand : Nat) (exponent : Int) : Decimal :=
  let i := Interval.around f significand exponent
  let top := magnitude i.value i.unit
  let found := (List.range 17).findSome? fun n => i.onGrid (top - (n + 1 : Nat))
  trim 17 (found.getD ⟨0, 0⟩)

end Decimal

end VaultKernel
