import VaultKernel.Text.Hidden

/-!
# Quoted text

A string or a character between quotation marks, as it appears in diagnostics. The usual control
characters, the backslash and the mark in use are written with a backslash, a hidden character by
its code in hexadecimal, and everything else as it is.
-/

namespace VaultKernel.Text

/-- The hexadecimal digits of `n`, most significant first. -/
def hexDigits (n : Nat) : List Char := Nat.toDigits 16 n

/-- One character as it stands between two `mark`s. -/
def escaped (mark c : Char) : List Char :=
  if c = '\x00' then ['\\', '0']
  else if c = '\t' then ['\\', 't']
  else if c = '\r' then ['\\', 'r']
  else if c = '\n' then ['\\', 'n']
  else if c = '\\' ∨ c = mark then ['\\', c]
  else if isHidden c then '\\' :: 'u' :: '\x7b' :: hexDigits c.toNat ++ ['\x7d']
  else [c]

/-- A string between double quotation marks. -/
def quoted (text : String) : String :=
  String.ofList ('\x22' :: text.toList.flatMap (escaped '\x22') ++ ['\x22'])

/-- A character between single quotation marks. -/
def quotedChar (c : Char) : String :=
  String.ofList ('\x27' :: escaped '\x27' c ++ ['\x27'])

end VaultKernel.Text
