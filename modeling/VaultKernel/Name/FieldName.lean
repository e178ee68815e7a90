import VaultKernel.Text.Split

/-!
# Field names

A field is called `Class.name`, and a text is read as a field name by cutting it at its last dot. A
text without a dot is a bare name of no class.
-/

namespace VaultKernel

/-- The name of a field with the class that it belongs to. -/
structure FieldName where
  className : String
  name : String
  deriving DecidableEq, Repr

namespace FieldName

/-- Cuts a text at its last dot. -/
def parse (text : String) : FieldName :=
  match Text.splitLast '.' text.toList with
  | some (before, after) => ⟨String.ofList before, String.ofList after⟩
  | none => ⟨"", text⟩

/-- The written form; a field of no class has no dot. -/
def text (f : FieldName) : String :=
  if f.className.isEmpty then f.name else f.className ++ "." ++ f.name

/-- The form in diagnostics. -/
def annotated (f : FieldName) : String := "FieldName(" ++ f.text ++ ")"

end FieldName

end VaultKernel
