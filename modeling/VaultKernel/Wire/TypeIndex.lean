import VaultKernel.Wire.Reader
import VaultKernel.Wire.Writer

/-!
# Type references on the wire

A type is named by an index into the type-name table or by the key of a generic parameter.
-/

namespace VaultKernel.Wire

/-- A type as an image refers to it. -/
inductive TypeIndex where
  /-- An index into the type-name table. -/
  | type (index : Int32)
  /-- The key of a generic parameter. -/
  | generic (key : Int32)
  deriving DecidableEq, Repr

namespace TypeIndex

/-- The number of bytes that a type reference takes. -/
def size : Nat := 5

/-- Reads whether the type is generic, and its number. -/
def read : Reader TypeIndex := do
  let isGeneric ← Reader.bool
  let number ← Reader.i32
  return if isGeneric then .generic number else .type number

/-- The bytes of a type reference. -/
def bytes : TypeIndex → Bytes
  | .type index => Writer.bool false ++ Writer.i32 index
  | .generic key => Writer.bool true ++ Writer.i32 key

end TypeIndex

end VaultKernel.Wire
