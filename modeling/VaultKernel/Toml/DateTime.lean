import VaultKernel.Text.Numeral
import VaultKernel.Toml.Blank

/-!
# Dates and times

A date names a day of the calendar. A time has hours and minutes, and may have seconds and a
fraction of a second; a time with a date may tell its distance from the common time.
-/

namespace VaultKernel.Toml

/-- A number of exactly `width` digits, with what follows it. -/
def field? (width : Nat) (cs : List Char) : Option (Nat × List Char) := do
  let digits := cs.take width
  if digits.length = width then return (← Text.natural? digits, cs.drop width) else none

/-- The number of days of a month. -/
def monthLength (year month : Nat) : Nat :=
  if month = 2 then
    if year % 4 = 0 && (year % 100 ≠ 0 || year % 400 = 0) then 29 else 28
  else if month = 4 || month = 6 || month = 9 || month = 11 then 30
  else 31

/-- Reads a date and returns what follows it. -/
def date? (cs : List Char) : Option (List Char) := do
  let (year, cs) ← field? 4 cs
  let (month, cs) ← field? 2 (← mark? '-' cs)
  let (day, cs) ← field? 2 (← mark? '-' cs)
  if 1 ≤ month && month ≤ 12 && 1 ≤ day && day ≤ monthLength year month then some cs else none

/-- Reads hours and minutes and returns what follows them. -/
def clock? (cs : List Char) : Option (List Char) := do
  let (hour, cs) ← field? 2 cs
  let (minute, cs) ← field? 2 (← mark? ':' cs)
  if hour ≤ 23 && minute ≤ 59 then some cs else none

/-- Reads seconds with an optional fraction, both of which may be absent. -/
def seconds? : List Char → Option (List Char)
  | ':' :: cs => do
    let (second, cs) ← field? 2 cs
    if 60 < second then none
    else
      match cs with
      | '.' :: rest =>
        if (rest.takeWhile Text.isDigit).isEmpty then none else some (rest.dropWhile Text.isDigit)
      | _ => some cs
  | cs => some cs

/-- Reads a time and returns what follows it. -/
def time? (cs : List Char) : Option (List Char) := do seconds? (← clock? cs)

/-- Whether a text is the distance of a time from the common one, which may be absent. -/
def isOffset : List Char → Bool
  | [] => true
  | ['Z'] => true
  | ['z'] => true
  | '+' :: cs => clock? cs = some []
  | '-' :: cs => clock? cs = some []
  | _ => false

/-- Whether a text is a date, a time, or both with a letter or a blank between them. -/
def isDateTime (cs : List Char) : Bool :=
  match date? cs with
  | none => time? cs = some []
  | some [] => true
  | some (c :: rest) =>
    (c = 'T' || c = 't' || c = ' ') &&
      match time? rest with
      | some tail => isOffset tail
      | none => false

end VaultKernel.Toml
