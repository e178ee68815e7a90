import VaultKernel.Toml.DateTime
import VaultKernel.Toml.Number

/-!
# Scalars without quotes

A truth value, a number or a date-time reaches to a line end, a comment or a mark of the format.
Blanks before these do not belong to it, but blanks before other text do: a date and a time may have
a space between them. What follows the leading digits tells the kind of a number or date-time.
-/

namespace VaultKernel.Toml

/-- Whether a character other than a blank can belong to a scalar without quotes. -/
def isAtomChar (c : Char) : Bool := !(" \t\r\n#,=[]\x7b\x7d".toList.contains c)

/-- The value of a decimal number or a date-time; `body` follows the sign of `text`. -/
def decimalOrDate? (text body : List Char) : Option Value :=
  let rest := body.dropWhile Text.isDigit
  if rest.head?.any fun c => c = '-' || c = ':' then
    if isDateTime text then some (.dateTime (String.ofList text)) else none
  else if rest.contains ' ' then none
  else if rest.any isFloatMark then
    if isFloat text body then some (.float (String.ofList text)) else none
  else if rest.head?.all (· = '_') then (decimal? text body).map .integer
  else none

/-- The value of a scalar without quotes. -/
def scalarOf? (text : List Char) : Option Value :=
  match text with
  | ['t', 'r', 'u', 'e'] => some (.boolean true)
  | ['f', 'a', 'l', 's', 'e'] => some (.boolean false)
  | '0' :: 'x' :: digits => (numeralIn? 16 digits).map .integer
  | '0' :: 'o' :: digits => (numeralIn? 8 digits).map .integer
  | '0' :: 'b' :: digits => (numeralIn? 2 digits).map .integer
  | _ =>
    let body := (splitSign text).2
    if body = "inf".toList || body = "nan".toList then some (.float (String.ofList text))
    else decimalOrDate? text body

/-- Whether blanks are followed by more of a scalar without quotes. -/
def atomGoesOn (cs : List Char) : Bool :=
  (skipBlanks cs).head?.any fun c => isAtomChar c && c ≠ '\x22' && c ≠ '\x27'

/-- The characters of a scalar without quotes, and what follows them. -/
def atom : List Char → List Char × List Char
  | [] => ([], [])
  | c :: rest =>
    if isAtomChar c || (isBlank c && atomGoesOn rest) then
      let (more, rest) := atom rest
      (c :: more, rest)
    else ([], c :: rest)

/-- Reads a scalar without quotes. -/
def scalar? (cs : List Char) : Option (Value × List Char) :=
  let (text, rest) := atom cs
  (scalarOf? text).map fun value => (value, rest)

end VaultKernel.Toml
