import VaultKernel.Toml.Value

/-!
# Building tables

While a document is read, a table remembers how it came about: by its own header, on the way to the
header of another one, or by a dotted key. A header may not name a table twice, and a dotted key
may not add to a table that has a header. A value that is written out in full, such as an inline
table, is closed.
-/

namespace VaultKernel.Toml

/-- How a table came about. -/
inductive TableOrigin where
  /-- It has a header of its own. -/
  | header
  /-- It is on the way to the header of another table. -/
  | passage
  /-- It is part of a dotted key. -/
  | dotted
  deriving DecidableEq, Repr

/-- What a key leads to while a document is read. -/
inductive Node where
  | value (value : Value)
  | table (origin : TableOrigin) (entries : List (String × Node))
  /-- An array of tables, of which the last one is open. -/
  | tables (closed : List (List (String × Node))) (last : List (String × Node))
  deriving Inhabited

/-- The entries of a table that is being built. -/
abbrev Entries := List (String × Node)

mutual

/-- The value of a node. -/
def Node.toValue : Node → Value
  | .value v => v
  | .table _ entries => .table (valuesOf entries)
  | .tables closed last => .array (tablesOf closed ++ [.table (valuesOf last)])

/-- The values of entries. -/
def valuesOf : List (String × Node) → List (String × Value)
  | [] => []
  | (key, node) :: rest => (key, node.toValue) :: valuesOf rest

/-- The values of the tables of an array. -/
def tablesOf : List (List (String × Node)) → List Value
  | [] => []
  | entries :: rest => .table (valuesOf entries) :: tablesOf rest

end

namespace Entries

/-- Puts a node under a key; a known key keeps its place. -/
def put (entries : Entries) (key : String) (node : Node) : Entries :=
  if entries.any (·.1 = key) then entries.map fun e => if e.1 = key then (key, node) else e
  else entries ++ [(key, node)]

/-- Changes the table under a key, which a header passes through: a table, the last table of an
array, or a new table. -/
def passThrough (entries : Entries) (key : String) (change : Entries → Option Entries) :
    Option Entries := do
  match entries.lookup key with
  | none => return entries.put key (.table .passage (← change []))
  | some (.table origin inner) => return entries.put key (.table origin (← change inner))
  | some (.tables closed last) => return entries.put key (.tables closed (← change last))
  | some (.value _) => none

/-- Applies a change at the end of a path. -/
def along (change : Entries → String → Option Entries) : (path : List String) → Entries →
    Option Entries
  | [], _ => none
  | [key], entries => change entries key
  | key :: rest, entries => entries.passThrough key (along change rest)

/-- Gives the table under a key a header of its own. -/
def openTable (entries : Entries) (key : String) : Option Entries :=
  match entries.lookup key with
  | none => some (entries.put key (.table .header []))
  | some (.table .passage inner) => some (entries.put key (.table .header inner))
  | some _ => none

/-- Adds a table to the array under a key. -/
def openElement (entries : Entries) (key : String) : Option Entries :=
  match entries.lookup key with
  | none => some (entries.put key (.tables [] []))
  | some (.tables closed last) => some (entries.put key (.tables (closed ++ [last]) []))
  | some _ => none

/-- Puts a value under a dotted key. -/
def insertDotted (value : Value) : (path : List String) → Entries → Option Entries
  | [], _ => none
  | [key], entries =>
    if entries.any (·.1 = key) then none else some (entries.put key (.value value))
  | key :: rest, entries => do
    match entries.lookup key with
    | none => return entries.put key (.table .dotted (← insertDotted value rest []))
    | some (.table .header _) => none
    | some (.table origin inner) =>
      return entries.put key (.table origin (← insertDotted value rest inner))
    | some _ => none

/-- Puts a value under a dotted key of the table at a path. -/
def insertAt (value : Value) (key : List String) : (path : List String) → Entries → Option Entries
  | [], entries => insertDotted value key entries
  | first :: rest, entries => entries.passThrough first (insertAt value key rest)

end Entries

end VaultKernel.Toml
