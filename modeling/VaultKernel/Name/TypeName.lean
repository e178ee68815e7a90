import VaultKernel.Text.Split

/-!
# Type names

A type is called `assembly%space/name`. The space may itself contain slashes, so the short name
starts after the last one, while the assembly ends at the first percent sign. Any text is a type
name; missing dividers leave the assembly and the space empty.
-/

namespace VaultKernel

/-- The full name of a type. -/
structure TypeName where
  full : String
  deriving DecidableEq, Repr

namespace TypeName

/-- The name with the given parts. -/
def ofParts (assembly space name : String) : TypeName :=
  ⟨assembly ++ "%" ++ space ++ "/" ++ name⟩

/-- The part before the first `%`. -/
def assembly (t : TypeName) : String :=
  match Text.splitFirst '%' t.full.toList with
  | some (before, _) => String.ofList before
  | none => ""

/-- The part after the first `%`. -/
def withSpace (t : TypeName) : String :=
  match Text.splitFirst '%' t.full.toList with
  | some (_, after) => String.ofList after
  | none => t.full

/-- The part between the first `%` and the last `/`. -/
def space (t : TypeName) : String :=
  match Text.splitLast '/' t.withSpace.toList with
  | some (before, _) => String.ofList before
  | none => ""

/-- The part after the last `/`. -/
def short (t : TypeName) : String :=
  match Text.splitLast '/' t.withSpace.toList with
  | some (_, after) => String.ofList after
  | none => t.withSpace

/-- Whether `query` is the short name, the name with its space, or the full name. -/
def isNamed (t : TypeName) (query : String) : Bool :=
  t.short = query || t.withSpace = query || t.full = query

end TypeName

end VaultKernel
