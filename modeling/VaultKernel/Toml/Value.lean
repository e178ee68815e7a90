/-!
# TOML values

The data model of a TOML document. An integer keeps its digits and gets its value when it is asked
for, so that it may be of any size. Numbers with a fraction or exponent and date-times keep their
text, since settings use neither.
-/

namespace VaultKernel.Toml

/-- An integer as it is written, without the underscores between its digits. -/
structure Numeral where
  base : Nat
  /-- The digits; in base ten a sign may precede them. -/
  text : List Char
  deriving DecidableEq, Repr

/-- A value of a document. -/
inductive Value where
  | string (text : String)
  | integer (numeral : Numeral)
  | float (text : String)
  | boolean (value : Bool)
  | dateTime (text : String)
  | array (items : List Value)
  /-- Distinct keys in order of first appearance. -/
  | table (entries : List (String × Value))
  deriving Inhabited

end VaultKernel.Toml
