/-!
# Numerals

Decimal text of whole numbers and its reading. `digits` writes a natural number with the most
significant digit first and no leading zero; `natural?` reads any non-empty run of digits, and
`integer?` adds the sign. Leading zeros are accepted on reading and never written.
-/

namespace VaultKernel.Text

/-- The character of a digit below ten. -/
def digitChar (d : Nat) : Char := Char.ofNat (48 + d)

/-- The value of a decimal digit. -/
def digitValue? (c : Char) : Option Nat :=
  if 48 ≤ c.toNat ∧ c.toNat ≤ 57 then some (c.toNat - 48) else none

/-- Whether a character is a decimal digit. -/
def isDigit (c : Char) : Bool := (digitValue? c).isSome

/-- The decimal digits of `n`, most significant first. -/
def digits (n : Nat) : List Char :=
  if n < 10 then [digitChar n] else digits (n / 10) ++ [digitChar (n % 10)]

/-- The number of decimal digits of `n`; zero has one. -/
def digitCount (n : Nat) : Nat := (digits n).length

/-- The decimal text of a natural number. -/
def natural (n : Nat) : String := String.ofList (digits n)

/-- The decimal text of an integer. -/
def integer (z : Int) : String :=
  if z < 0 then "-" ++ natural z.natAbs else natural z.natAbs

/-- Continues reading digits after a number whose value so far is `value`. -/
def naturalFrom (value : Nat) : List Char → Option Nat
  | [] => some value
  | c :: rest => do naturalFrom (10 * value + (← digitValue? c)) rest

/-- Reads a non-empty run of digits. -/
def natural? : List Char → Option Nat
  | [] => none
  | cs => naturalFrom 0 cs

/-- Reads digits with an optional `+`. -/
def unsigned? : List Char → Option Nat
  | '+' :: rest => natural? rest
  | cs => natural? cs

/-- Reads digits with an optional sign. -/
def integer? : List Char → Option Int
  | '-' :: rest => (natural? rest).map fun n => -(n : Int)
  | cs => (unsigned? cs).map fun n => (n : Int)

/-- Reads an unsigned number of at most `limit`. -/
def unsignedUpTo? (limit : Nat) (text : String) : Option Nat :=
  (unsigned? text.toList).filter (· ≤ limit)

/-- Reads an integer between `low` and `high`, both included. -/
def integerIn? (low high : Int) (text : String) : Option Int :=
  (integer? text.toList).filter fun z => low ≤ z && z ≤ high

end VaultKernel.Text
