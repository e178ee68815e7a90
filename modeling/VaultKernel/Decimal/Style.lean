import VaultKernel.Decimal.Shortest

/-!
# Writing floating point numbers

A number is written with its shortest digits, in positions or in scientific form as a `Style` says.
There are two styles: `plain`, for values that are read back, and `annotated`, for diagnostics.
-/

namespace VaultKernel

/-- How the shortest digits of a number are laid out. -/
structure FloatStyle where
  /-- Follows a number without fractional digits. -/
  wholeMark : String
  /-- Whether a number is written in scientific form; the argument is the power of ten just above
  it. -/
  scientific : Int → Bool

namespace FloatStyle

/-- Positions only, and whole numbers without a point. -/
def plain : FloatStyle := ⟨"", fun _ => false⟩

/-- Whole numbers end in `.0`; numbers from ten to the sixteenth and numbers below one part in ten
thousand are in scientific form. -/
def annotated : FloatStyle := ⟨".0", fun top => 16 < top || top < -3⟩

end FloatStyle

namespace Decimal

/-- The digits with a point where the power of ten `top` puts it. -/
def positional (style : FloatStyle) (ds : List Char) (top : Int) : String :=
  let width : Int := ds.length
  if top ≤ 0 then "0." ++ String.ofList (List.replicate (-top).toNat '0' ++ ds)
  else if width ≤ top then
    String.ofList (ds ++ List.replicate (top - width).toNat '0') ++ style.wholeMark
  else String.ofList (ds.take top.toNat ++ '.' :: ds.drop top.toNat)

/-- The first digit, a point and the others if there are any, and the exponent. -/
def exponential (ds : List Char) (top : Int) : String :=
  let fraction := if ds.length ≤ 1 then [] else '.' :: ds.drop 1
  String.ofList (ds.take 1 ++ fraction) ++ "e" ++ Text.integer (top - 1)

/-- A decimal in the given style. -/
def text (style : FloatStyle) (d : Decimal) : String :=
  let ds := Text.digits d.coefficient
  let top := d.exponent + ds.length
  if style.scientific top then exponential ds top else positional style ds top

end Decimal

/-- The text of the number with the given bit pattern. -/
def BinaryFormat.text (f : BinaryFormat) (style : FloatStyle) (bits : Nat) : String :=
  let sign (negative : Bool) := if negative then "-" else ""
  match f.decode bits with
  | .nan => "NaN"
  | .infinite negative => sign negative ++ "inf"
  | .finite negative 0 _ => sign negative ++ "0" ++ style.wholeMark
  | .finite negative significand exponent =>
    sign negative ++ (Decimal.shortest f significand exponent).text style

end VaultKernel
