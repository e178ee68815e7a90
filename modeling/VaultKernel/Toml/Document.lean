import VaultKernel.Toml.Scalar
import VaultKernel.Toml.Table

/-!
# TOML documents

A document is a list of statements: headers, which choose a table, and entries, which put values
under keys of the chosen table. `parse?` reads version 1.1 of the format, with a limit on how deep
values are nested and keys are dotted. Every part of a text is shorter than the text, so its length
bounds the number of parts.
-/

namespace VaultKernel.Toml

/-- The most arrays and inline tables that may be nested in each other, and the most components of a
key. -/
def nestingLimit : Nat := 80

/-! ## Keys -/

/-- A character of a key without quotes. -/
def isBareChar (c : Char) : Bool := c.isAlphanum || c = '_' || c = '-'

/-- Reads one component of a key. -/
def component? (cs : List Char) : Option (String × List Char) :=
  match cs with
  | c :: rest =>
    if c = '\x22' || c = '\x27' then lineString? c rest
    else
      let name := cs.takeWhile isBareChar
      if name.isEmpty then none else some (String.ofList name, cs.dropWhile isBareChar)
  | [] => none

/-- Reads a key of at most `limit` components, and the blanks after it. -/
def keyUpTo : (limit : Nat) → List Char → Option (List String × List Char)
  | 0, _ => none
  | limit + 1, cs => do
    let (first, cs) ← component? (skipBlanks cs)
    match skipBlanks cs with
    | '.' :: cs =>
      let (more, cs) ← keyUpTo limit cs
      return (first :: more, cs)
    | cs => return ([first], cs)

/-- Reads a key, and the blanks around it. -/
def key? (cs : List Char) : Option (List String × List Char) := keyUpTo nestingLimit cs

/-! ## Values -/

mutual

/-- Reads a value of at most `fuel` parts with at most `depth` arrays and inline tables nested in
each other. -/
def valueUpTo : (fuel depth : Nat) → List Char → Option (Value × List Char)
  | 0, _, _ => none
  | _ + 1, _, [] => none
  | fuel + 1, depth, c :: cs =>
    if c = '\x22' || c = '\x27' then
      (string? (c :: cs)).map fun (text, rest) => (.string text, rest)
    else if c = '[' then
      if depth = 0 then none
      else (itemsUpTo fuel (depth - 1) cs).map fun (items, rest) => (.array items, rest)
    else if c = '\x7b' then
      if depth = 0 then none
      else
        (pairsUpTo fuel (depth - 1) cs []).map fun (entries, rest) =>
          (.table (valuesOf entries), rest)
    else scalar? (c :: cs)

/-- Reads the items of an array up to its closing bracket. -/
def itemsUpTo : (fuel depth : Nat) → List Char → Option (List Value × List Char)
  | 0, _, _ => none
  | fuel + 1, depth, cs => do
    match ← skipGap cs with
    | ']' :: rest => return ([], rest)
    | cs =>
      let (item, cs) ← valueUpTo fuel depth cs
      match ← skipGap cs with
      | ',' :: rest =>
        let (items, rest) ← itemsUpTo fuel depth rest
        return (item :: items, rest)
      | ']' :: rest => return ([item], rest)
      | _ => none

/-- Reads the entries of an inline table up to its closing brace and adds them to `entries`. -/
def pairsUpTo : (fuel depth : Nat) → List Char → Entries → Option (Entries × List Char)
  | 0, _, _, _ => none
  | fuel + 1, depth, cs, entries => do
    match ← skipGap cs with
    | '\x7d' :: rest => return (entries, rest)
    | cs =>
      let (key, cs) ← key? cs
      let (value, cs) ← valueUpTo fuel depth (← skipGap (← mark? '=' (← skipGap cs)))
      let entries ← Entries.insertDotted value key entries
      match ← skipGap cs with
      | ',' :: rest => pairsUpTo fuel depth rest entries
      | '\x7d' :: rest => return (entries, rest)
      | _ => none

end

/-- Reads a value. -/
def value? (cs : List Char) : Option (Value × List Char) :=
  valueUpTo (cs.length + 1) nestingLimit cs

/-! ## Statements -/

/-- A part of a document. -/
inductive Statement where
  /-- Chooses the table at a path. -/
  | table (path : List String)
  /-- Adds a table to the array at a path and chooses it. -/
  | element (path : List String)
  /-- Puts a value under a key of the chosen table. -/
  | entry (key : List String) (value : Value)

/-- Reads one statement. -/
def statement? : List Char → Option (Statement × List Char)
  | '[' :: '[' :: cs => do
    let (path, cs) ← key? cs
    return (.element path, ← mark? ']' (← mark? ']' cs))
  | '[' :: cs => do
    let (path, cs) ← key? cs
    return (.table path, ← mark? ']' cs)
  | cs => do
    let (key, cs) ← key? cs
    let (value, cs) ← value? (skipBlanks (← mark? '=' cs))
    return (.entry key value, cs)

/-- Reads at most `fuel` statements, each of which ends its line. -/
def statementsUpTo : (fuel : Nat) → List Char → Option (List Statement)
  | 0, _ => none
  | fuel + 1, cs => do
    match ← skipGap cs with
    | [] => return []
    | cs =>
      let (statement, cs) ← statement? cs
      return statement :: (← statementsUpTo fuel (← endLine? cs))

/-- Drops a byte order mark in front. -/
def dropOrderMark : List Char → List Char
  | '\ufeff' :: cs => cs
  | cs => cs

/-- The statements of a document. -/
def statements? (text : String) : Option (List Statement) :=
  let cs := dropOrderMark text.toList
  statementsUpTo (cs.length + 1) cs

/-! ## Documents -/

/-- The entries read so far and the path of the chosen table. -/
structure Draft where
  entries : Entries := []
  chosen : List String := []

/-- Adds a statement to a draft. -/
def Draft.add (draft : Draft) : Statement → Option Draft
  | .table path => do return ⟨← Entries.along Entries.openTable path draft.entries, path⟩
  | .element path => do return ⟨← Entries.along Entries.openElement path draft.entries, path⟩
  | .entry key value => do
    return { draft with entries := ← Entries.insertAt value key draft.chosen draft.entries }

/-- The top table of a document. -/
def parse? (text : String) : Option (List (String × Value)) := do
  let draft ← (← statements? text).foldlM Draft.add {}
  return valuesOf draft.entries

end VaultKernel.Toml
