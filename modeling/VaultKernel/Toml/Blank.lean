/-!
# Marks, blanks and comments

What stands between the parts of a document: spaces and tabs, line ends, and comments, which reach
to the end of their line. A line ends with a line feed, before which a carriage return may stand; a
carriage return elsewhere and any other control character is refused.
-/

namespace VaultKernel.Toml

/-- A space or a tab. -/
def isBlank (c : Char) : Bool := c = ' ' || c = '\t'

/-- A character of a comment or a string: any but the control characters other than the tab. -/
def isTextChar (c : Char) : Bool := c = '\t' || (0x20 ≤ c.toNat && c.toNat ≠ 0x7F)

/-- Drops a mark in front. -/
def mark? (mark : Char) : List Char → Option (List Char)
  | c :: rest => if c = mark then some rest else none
  | [] => none

/-- Drops spaces and tabs. -/
def skipBlanks (cs : List Char) : List Char := cs.dropWhile isBlank

/-- Drops blanks, line ends and comments; `inComment` tells whether a comment was begun. -/
def skipFrom : (inComment : Bool) → List Char → Option (List Char)
  | _, [] => some []
  | _, '\n' :: rest => skipFrom false rest
  | _, '\r' :: '\n' :: rest => skipFrom false rest
  | true, c :: rest => if isTextChar c then skipFrom true rest else none
  | false, c :: rest =>
    if isBlank c then skipFrom false rest
    else if c = '#' then skipFrom true rest
    else some (c :: rest)

/-- Drops blanks, line ends and comments. -/
def skipGap (cs : List Char) : Option (List Char) := skipFrom false cs

/-- Drops the rest of a line, which may hold only blanks and a comment. -/
def endLine? (cs : List Char) : Option (List Char) :=
  match skipBlanks cs with
  | [] => some []
  | '\n' :: rest => some rest
  | '\r' :: '\n' :: rest => some rest
  | '#' :: rest => skipFrom true rest
  | _ => none

end VaultKernel.Toml
