import VaultKernel.Version.Basic
import VaultKernel.Text.Quoted

/-!
# Reading versions

A version text has one to three numbers, then pre-release identifiers after a hyphen and build
identifiers after a plus sign. Missing numbers are zero. A number has no leading zero, and neither
has a numeric pre-release identifier; every identifier has at least one letter, digit or hyphen.
-/

namespace VaultKernel.Version

/-- The part of a version at which reading stopped. -/
inductive Part where
  | major | minor | patch | preRelease | build
  deriving DecidableEq, Repr

/-- The name of a part in diagnostics. -/
def Part.text : Part → String
  | .major => "major version number"
  | .minor => "minor version number"
  | .patch => "patch version number"
  | .preRelease => "pre-release identifier"
  | .build => "build metadata"

/-- Why a text is no version. -/
inductive Problem where
  | empty
  | unexpectedEnd (part : Part)
  /-- A character that cannot begin the part. -/
  | unexpectedChar (c : Char) (part : Part)
  /-- A character that cannot follow the part. -/
  | unexpectedAfter (c : Char) (part : Part)
  | leadingZero (part : Part)
  | overflow (part : Part)
  | emptySegment (part : Part)
  deriving DecidableEq, Repr

/-- The wording of a problem. -/
def Problem.message : Problem → String
  | .empty => "empty string, expected a semver version"
  | .unexpectedEnd part => "unexpected end of input while parsing " ++ part.text
  | .unexpectedChar c part =>
    "unexpected character " ++ Text.quotedChar c ++ " while parsing " ++ part.text
  | .unexpectedAfter c part =>
    "unexpected character " ++ Text.quotedChar c ++ " after " ++ part.text
  | .leadingZero part => "invalid leading zero in " ++ part.text
  | .overflow part => "value of " ++ part.text ++ " exceeds u64::MAX"
  | .emptySegment part => "empty identifier segment in " ++ part.text

/-- The greatest number that a part can have. -/
def numberLimit : Nat := 18446744073709551615

/-- Reads the digits that follow a number with the value `value`. -/
def numberFrom (part : Part) (value : Nat) : List Char → Except Problem (Nat × List Char)
  | [] => .ok (value, [])
  | c :: rest =>
    match Text.digitValue? c with
    | none => .ok (value, c :: rest)
    | some d =>
      if value = 0 then .error (.leadingZero part)
      else if numberLimit < 10 * value + d then .error (.overflow part)
      else numberFrom part (10 * value + d) rest

/-- Reads one number. -/
def number (part : Part) : List Char → Except Problem (Nat × List Char)
  | [] => .error (.unexpectedEnd part)
  | c :: rest =>
    match Text.digitValue? c with
    | none => .error (.unexpectedChar c part)
    | some d => numberFrom part d rest

/-- Reads the dot after a number. -/
def dot (part : Part) : List Char → Except Problem (List Char)
  | [] => .error (.unexpectedEnd part)
  | '.' :: rest => .ok rest
  | c :: _ => .error (.unexpectedAfter c part)

/-- Whether a character may stand in an identifier. -/
def isIdentifierChar (c : Char) : Bool := c.isAlphanum || c = '-'

/-- Checks one identifier. -/
def checkSegment (part : Part) (segment : List Char) : Except Problem Unit :=
  if segment.isEmpty then .error (.emptySegment part)
  else if part = .preRelease ∧ 1 < segment.length ∧ segment.head? = some '0' ∧
      segment.all Text.isDigit then .error (.leadingZero part)
  else .ok ()

/-- Reads identifiers with dots between them. -/
def identifiers (part : Part) (cs : List Char) : Except Problem (List String × List Char) := do
  let run := cs.takeWhile fun c => isIdentifierChar c || c = '.'
  let segments := Text.pieces '.' run
  segments.forM (checkSegment part)
  return (segments.map String.ofList, cs.drop run.length)

/-- Reads the identifiers that `mark` announces; without the mark there are none. The last part that
was read is returned for the diagnostic of what follows. -/
def tagged (mark : Char) (part before : Part) (cs : List Char) :
    Except Problem (List String × List Char × Part) :=
  match cs with
  | [] => .ok ([], [], before)
  | c :: rest =>
    if c = mark then do
      let (ids, rest) ← identifiers part rest
      return (ids, rest, part)
    else .ok ([], cs, before)

/-- Reads a version with all three numbers. -/
def parseComplete (cs : List Char) : Except Problem Version := do
  if cs.isEmpty then throw .empty
  let (major, cs) ← number .major cs
  let cs ← dot .major cs
  let (minor, cs) ← number .minor cs
  let cs ← dot .minor cs
  let (patch, cs) ← number .patch cs
  let (preRelease, cs, part) ← tagged '-' .preRelease .patch cs
  let (build, cs, part) ← tagged '+' .build part cs
  match cs with
  | [] => return { major, minor, patch, preRelease, build }
  | c :: _ => throw (.unexpectedAfter c part)

/-- The text with the missing numbers filled in: there are as many as dots are missing before the
first hyphen or plus sign. -/
def pad (cs : List Char) : List Char :=
  let numbers := cs.takeWhile fun c => c ≠ '-' && c ≠ '+'
  let filling := match numbers.count '.' with
    | 0 => ".0.0"
    | 1 => ".0"
    | _ => ""
  numbers ++ filling.toList ++ cs.drop numbers.length

/-- Reads a version. -/
def parse (text : String) : Except Problem Version := parseComplete (pad text.toList)

end VaultKernel.Version
