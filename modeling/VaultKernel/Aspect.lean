import VaultKernel.Constant
import VaultKernel.Name.FieldName

/-!
# Aspects

An aspect is a named annotation with numbered arguments on a class, a method or a field. An image
stores each argument as a constant under a key that spells the aspect:

    aspect/\{name}/\class/\{class}._{index}
    aspect/\{name}/\class/\{class}/\method/\{method}._{index}
    aspect/\{name}/\class/\{class}/\field/\{field}._{index}

`Aspect.key` writes such a key, and `Aspect.ofConstants` gathers the arguments again, one aspect for
each distinct key without its index, in order of first appearance.
-/

namespace VaultKernel

/-- Constants under distinct keys, in order of arrival. -/
structure ConstantTable where
  entries : List (FieldName × Constant) := []
  deriving DecidableEq, Repr

namespace ConstantTable

/-- Stores a constant; a known key keeps its place and gets the new value. -/
def insert (t : ConstantTable) (name : FieldName) (value : Constant) : ConstantTable :=
  if t.entries.any (·.1 = name) then
    ⟨t.entries.map fun e => if e.1 = name then (name, value) else e⟩
  else ⟨t.entries ++ [(name, value)]⟩

/-- The constant under a key. -/
def get? (t : ConstantTable) (name : FieldName) : Option Constant := t.entries.lookup name

/-- The constants of an image, whose keys are read as field names. -/
def ofEntries (entries : List ConstantEntry) : ConstantTable :=
  entries.foldl (fun t e => t.insert (FieldName.parse e.name) e.value) {}

end ConstantTable

/-- What an aspect is attached to. -/
inductive AspectTarget where
  | class (className : String)
  | method (className method : String)
  | field (className field : String)
  deriving DecidableEq, Repr

/-- The class that a target belongs to. -/
def AspectTarget.className : AspectTarget → String
  | .class c => c
  | .method c _ => c
  | .field c _ => c

/-- A numbered argument of an aspect. -/
structure AspectArgument where
  index : UInt32
  value : Constant
  deriving DecidableEq, Repr

/-- A named annotation. -/
structure Aspect where
  name : String
  target : AspectTarget
  /-- The arguments in the order of their numbers. -/
  arguments : List AspectArgument
  deriving DecidableEq, Repr

namespace Aspect

/-- Stands between the components of a key. -/
def divider : String := "/\\"

/-- The name of the aspect that binds a method to native code. -/
def native : String := "native"

/-- A word between two dividers. -/
def marker (word : String) : String := divider ++ word ++ divider

/-- What every key begins with. -/
def opening : String := "aspect" ++ divider

/-- The key without the number of the argument. -/
def groupKey (name : String) (target : AspectTarget) : String :=
  let start := opening ++ name ++ marker "class" ++ target.className
  match target with
  | .class _ => start
  | .method _ method => start ++ marker "method" ++ method
  | .field _ field => start ++ marker "field" ++ field

/-- The key of one argument. -/
def key (name : String) (target : AspectTarget) (index : UInt32) : String :=
  groupKey name target ++ "._" ++ Text.natural index.toNat

/-! ## Reading keys -/

/-- Reads what follows the marker of the class. A method is looked for first, so a field marker
after it belongs to the method. -/
def target? (text : List Char) : Option AspectTarget :=
  match Text.splitAt (marker "method").toList text with
  | some (c, method) => some (.method (String.ofList c) (String.ofList method))
  | none =>
    match Text.splitAt (marker "field").toList text with
    | some (c, field) => some (.field (String.ofList c) (String.ofList field))
    | none =>
      if Text.contains divider.toList text then none else some (.class (String.ofList text))

/-- Reads a key without its number; neither the aspect nor the class may lack a name. -/
def readGroup? (text : String) : Option (String × AspectTarget) := do
  let rest ← Text.after? opening.toList text.toList
  let (name, rest) ← Text.splitAt (marker "class").toList rest
  let target ← target? rest
  if name.isEmpty ∨ target.className.isEmpty then none else some (String.ofList name, target)

/-- Reads the number of an argument. -/
def index? (text : String) : Option UInt32 := do
  let rest ← Text.after? ['_'] text.toList
  let n ← (Text.unsigned? rest).filter (· < 4294967296)
  return UInt32.ofNat n

/-- The argument that a constant stores, with the group that it belongs to. -/
def argument? (entry : FieldName × Constant) : Option (String × AspectArgument) := do
  let _ ← Text.after? opening.toList entry.1.className.toList
  let index ← index? entry.1.name
  return (entry.1.className, ⟨index, entry.2⟩)

/-- Adds an argument to its group; a new group comes last. -/
def addToGroup (groups : List (String × List AspectArgument)) (item : String × AspectArgument) :
    List (String × List AspectArgument) :=
  if groups.any (·.1 = item.1) then
    groups.map fun g => if g.1 = item.1 then (g.1, g.2 ++ [item.2]) else g
  else groups ++ [(item.1, [item.2])]

/-- The arguments of all constants, grouped. -/
def groups (constants : ConstantTable) : List (String × List AspectArgument) :=
  (constants.entries.filterMap argument?).foldl addToGroup []

/-- The aspect of one group, with its arguments in the order of their numbers. -/
def ofGroup? (group : String × List AspectArgument) : Option Aspect := do
  let (name, target) ← readGroup? group.1
  return { name, target, arguments := group.2.mergeSort fun a b => a.index ≤ b.index }

/-- The aspects that the constants spell; constants with other keys are passed over. -/
def ofConstants (constants : ConstantTable) : List Aspect := (groups constants).filterMap ofGroup?

end Aspect

end VaultKernel
