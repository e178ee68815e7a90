/-!
# Layouts

The layout of a class gives every field name a slot of the instances: first the slots of the parent,
then the fields that the class declares. A name that already has a slot keeps it, so a layout is a
list of distinct names and the slot of a name is its place in the list.
-/

namespace VaultKernel

/-- The field names of a class by slot. -/
structure Layout where
  names : List String := []
  deriving DecidableEq, Repr

namespace Layout

/-- The number of slots. -/
def size (l : Layout) : Nat := l.names.length

/-- The slot of a name. -/
def offset? (l : Layout) (name : String) : Option Nat := l.names.idxOf? name

/-- Adds a slot for a name that has none. -/
def push (l : Layout) (name : String) : Layout :=
  if name ∈ l.names then l else ⟨l.names ++ [name]⟩

/-- Adds slots for several names in order. -/
def extend (l : Layout) (names : List String) : Layout := names.foldl push l

end Layout

end VaultKernel
