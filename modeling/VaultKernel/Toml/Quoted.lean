import VaultKernel.Toml.Blank

/-!
# Quoted strings

A string stands between quotation marks, where escapes are replaced, or between apostrophes, where
every character stands for itself. A string between three of either may hold line ends; the first
line end is dropped if nothing precedes it, up to two marks may stand before the closing ones, and
between quotation marks a backslash at the end of a line joins it with the next text.
-/

namespace VaultKernel.Toml

/-- The value of a hexadecimal digit. -/
def hexValue? (c : Char) : Option Nat :=
  if '0' ≤ c ∧ c ≤ '9' then some (c.toNat - '0'.toNat)
  else if 'a' ≤ c ∧ c ≤ 'f' then some (c.toNat - 'a'.toNat + 10)
  else if 'A' ≤ c ∧ c ≤ 'F' then some (c.toNat - 'A'.toNat + 10)
  else none

/-- The number that digits spell in a base. -/
def digitsIn? (digit? : Char → Option Nat) (base : Nat) (cs : List Char) : Option Nat :=
  cs.foldlM (fun n c => (digit? c).map (base * n + ·)) 0

/-- The character with a hexadecimal code. -/
def hexChar? (cs : List Char) : Option Char := do
  let n ← digitsIn? hexValue? 16 cs
  if n.isValidChar then some (Char.ofNat n) else none

/-- The character that one letter after a backslash stands for. -/
def letterEscape? : Char → Option Char
  | 'b' => some '\x08'
  | 't' => some '\t'
  | 'n' => some '\n'
  | 'f' => some '\x0c'
  | 'r' => some '\r'
  | 'e' => some '\x1b'
  | '\x22' => some '\x22'
  | '\\' => some '\\'
  | _ => none

/-- Whether only blanks precede the end of the line. -/
def atLineEnd (cs : List Char) : Bool :=
  match skipBlanks cs with
  | '\n' :: _ => true
  | '\r' :: '\n' :: _ => true
  | _ => false

/-- Replaces the escapes of a string. A backslash at the end of a line is dropped with the blanks
and line ends after it; `joining` tells whether one was just dropped. -/
def unescapeFrom : (joining : Bool) → List Char → Option (List Char)
  | _, [] => some []
  | joining, c :: rest =>
    if joining && (isBlank c || c = '\n' || c = '\r') then unescapeFrom true rest
    else if c ≠ '\\' then (unescapeFrom false rest).map (c :: ·)
    else if atLineEnd rest then unescapeFrom true rest
    else
      match rest with
      | 'x' :: a :: b :: rest => do return (← hexChar? [a, b]) :: (← unescapeFrom false rest)
      | 'u' :: a :: b :: c :: d :: rest => do
        return (← hexChar? [a, b, c, d]) :: (← unescapeFrom false rest)
      | 'U' :: a :: b :: c :: d :: e :: f :: g :: h :: rest => do
        return (← hexChar? [a, b, c, d, e, f, g, h]) :: (← unescapeFrom false rest)
      | c :: rest => do return (← letterEscape? c) :: (← unescapeFrom false rest)
      | [] => none

/-- Replaces the escapes of a string. -/
def unescape (cs : List Char) : Option (List Char) := unescapeFrom false cs

/-- The raw content of a string on one line up to its closing mark. -/
def rawLine (mark : Char) (escapes : Bool) : List Char → Option (List Char × List Char)
  | [] => none
  | c :: rest =>
    if c = mark then some ([], rest)
    else if !isTextChar c then none
    else if escapes && c = '\\' then
      match rest with
      | d :: after =>
        if isTextChar d then
          (rawLine mark escapes after).map fun (raw, rest) => (c :: d :: raw, rest)
        else none
      | [] => none
    else (rawLine mark escapes rest).map fun (raw, rest) => (c :: raw, rest)

/-- The end of a string of several lines: up to two marks that belong to it and the three closing
ones. -/
def closing? (mark : Char) (cs : List Char) : Option (List Char × List Char) :=
  let run := (cs.takeWhile (· = mark)).length
  if run < 3 then none
  else
    let kept := min (run - 3) 2
    some (List.replicate kept mark, cs.drop (kept + 3))

/-- Whether a character may stand in a string of several lines before `rest`. -/
def isLinesChar (c : Char) (rest : List Char) : Bool :=
  isTextChar c || c = '\n' || (c = '\r' && rest.head? = some '\n')

/-- The raw content of a string of several lines up to its closing marks. -/
def rawLines (mark : Char) (escapes : Bool) : List Char → Option (List Char × List Char)
  | [] => none
  | c :: rest =>
    match closing? mark (c :: rest) with
    | some done => some done
    | none =>
      if !isLinesChar c rest then none
      else if escapes && c = '\\' then
        match rest with
        | d :: after =>
          if isLinesChar d after then
            (rawLines mark escapes after).map fun (raw, rest) => (c :: d :: raw, rest)
          else none
        | [] => none
      else (rawLines mark escapes rest).map fun (raw, rest) => (c :: raw, rest)

/-- Drops a line end in front. -/
def dropLineEnd : List Char → List Char
  | '\n' :: rest => rest
  | '\r' :: '\n' :: rest => rest
  | cs => cs

/-- Reads a string on one line, of which the opening mark was read. -/
def lineString? (mark : Char) (cs : List Char) : Option (String × List Char) := do
  let escapes := mark = '\x22'
  let (raw, rest) ← rawLine mark escapes cs
  return (String.ofList (← if escapes then unescape raw else some raw), rest)

/-- Reads a string of several lines, of which the opening marks were read. -/
def linesString? (mark : Char) (cs : List Char) : Option (String × List Char) := do
  let escapes := mark = '\x22'
  let (raw, rest) ← rawLines mark escapes (dropLineEnd cs)
  return (String.ofList (← if escapes then unescape raw else some raw), rest)

/-- Reads a string of either form. -/
def string? : List Char → Option (String × List Char)
  | a :: rest =>
    if a = '\x22' || a = '\x27' then
      match rest with
      | b :: c :: after => if b = a && c = a then linesString? a after else lineString? a rest
      | _ => lineString? a rest
    else none
  | [] => none

end VaultKernel.Toml
