import VaultKernel.Image.Method

/-!
# Class bodies

The wire form of a class: parents, methods as undecoded blocks, and fields. A class body is the one
encoding that refuses bytes left over after it.
-/

namespace VaultKernel.Image

open Wire

/-- A field by the indices of its name and type. -/
structure Field where
  /-- Index into the field-name table. -/
  name : Int32
  type : TypeIndex
  flags : Int16
  deriving DecidableEq, Repr

namespace Field

/-- Reads one field. -/
def read : Reader Field := do return ⟨← Reader.i32, ← TypeIndex.read, ← Reader.i16⟩

/-- The bytes of one field. -/
def bytes (f : Field) : Bytes := Writer.i32 f.name ++ f.type.bytes ++ Writer.i16 f.flags

end Field

/-- A class as it is declared. -/
structure ClassBody where
  /-- Index into the type-name table. -/
  name : Int32
  flags : Int16
  /-- Type indices of the parents, nearest first. -/
  parents : List Int32
  /-- Method blocks. -/
  methods : List Bytes
  fields : List Field
  deriving DecidableEq, Repr

namespace ClassBody

/-- Reads a class body. -/
def read : Reader ClassBody := do
  let name ← Reader.i32
  let flags ← Reader.i16
  let parents ← Reader.times Reader.i32 (← Reader.shortCount 4)
  let methods ← Reader.list 4 Reader.block
  let fields ← Reader.list (4 + TypeIndex.size + 2) Field.read
  return { name, flags, parents, methods, fields }

/-- Refuses the rest of a block of `declared` bytes. -/
def finish (declared : Nat) : Reader Unit := do
  let c ← get
  if c.isAtEnd then return () else throw (.blockMismatch 0 declared c.position)

/-- Decodes a class body, which must fill its block. -/
def decode (block : Bytes) : Except Error ClassBody :=
  Reader.decode (do
    let body ← read
    finish block.length
    return body) block

/-- The bytes of a class body. -/
def encode (c : ClassBody) : Except Error Bytes := do
  let parentCount ← Writer.shortLength c.parents.length
  let methods ← Writer.list Writer.block c.methods
  let fields ← Writer.list (fun f => .ok (Field.bytes f)) c.fields
  return Writer.i32 c.name ++ Writer.i16 c.flags ++ parentCount ++ c.parents.flatMap Writer.i32
    ++ methods ++ fields

end ClassBody

end VaultKernel.Image
