/-!
# Splitting text

Text is cut at the first or the last occurrence of a character, or at the first occurrence of a
longer divider. A cut returns what stands on the two sides, without the divider.
-/

namespace VaultKernel.Text

/-- Cuts at the first `c`. -/
def splitFirst (c : Char) : List Char → Option (List Char × List Char)
  | [] => none
  | x :: rest =>
    if x = c then some ([], rest)
    else (splitFirst c rest).map fun (before, after) => (x :: before, after)

/-- Cuts at the last `c`. -/
def splitLast (c : Char) : List Char → Option (List Char × List Char)
  | [] => none
  | x :: rest =>
    match splitLast c rest with
    | some (before, after) => some (x :: before, after)
    | none => if x = c then some ([], rest) else none

/-- What follows `head`, if the text starts with it. -/
def after? : (head text : List Char) → Option (List Char)
  | [], text => some text
  | _ :: _, [] => none
  | h :: head, t :: text => if h = t then after? head text else none

/-- Cuts at the first occurrence of `divider`. -/
def splitAt (divider : List Char) : List Char → Option (List Char × List Char)
  | [] => (after? divider []).map fun rest => ([], rest)
  | x :: rest =>
    match after? divider (x :: rest) with
    | some tail => some ([], tail)
    | none => (splitAt divider rest).map fun (before, tail) => (x :: before, tail)

/-- Whether `piece` occurs in the text. -/
def contains (piece text : List Char) : Bool := (splitAt piece text).isSome

/-- Joins texts with `divider` between neighbours. -/
def join (divider : String) : List String → String
  | [] => ""
  | [text] => text
  | text :: rest => text ++ divider ++ join divider rest

/-- Cuts at every `c`; a text without `c` is one piece. -/
def pieces (c : Char) : List Char → List (List Char)
  | [] => [[]]
  | x :: rest =>
    if x = c then [] :: pieces c rest
    else
      match pieces c rest with
      | [] => [[x]]
      | piece :: more => (x :: piece) :: more

end VaultKernel.Text
