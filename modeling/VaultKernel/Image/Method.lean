import VaultKernel.Wire.TypeIndex

/-!
# Method blocks

The wire form of a method: its signature by table indices and its body. The body is a second
encoding of its own, `Code`, which is opened only when the class is completed; a trailer that begins
with `zoneMagic` holds the protected zones, and bytes that begin otherwise are not read.
-/

namespace VaultKernel.Image

open Wire

/-- An argument by the indices of its name and type. -/
structure Argument where
  /-- Index into the string table. -/
  name : Int32
  type : TypeIndex
  deriving DecidableEq, Repr

namespace Argument

/-- Reads one argument. -/
def read : Reader Argument := do return ⟨← Reader.i32, ← TypeIndex.read⟩

/-- Reads a counted list of arguments. -/
def readList : Reader (List Argument) := Reader.list (4 + TypeIndex.size) read

/-- The bytes of one argument. -/
def bytes (a : Argument) : Bytes := Writer.i32 a.name ++ a.type.bytes

/-- The bytes of a counted list of arguments. -/
def listBytes (args : List Argument) : Except Error Bytes :=
  Writer.list (fun a => .ok a.bytes) args

end Argument

/-- A method as it is declared. -/
structure Method where
  /-- Index into the string table. -/
  name : Int32
  flags : Int16
  /-- Greatest depth of the evaluation stack. -/
  stackSize : UInt8
  /-- Number of local variables. -/
  locals : UInt8
  returnType : TypeIndex
  arguments : List Argument
  /-- The encoded `Code`. -/
  body : Bytes
  deriving DecidableEq, Repr

namespace Method

/-- Reads a method block. The size of the body comes early, its bytes last. -/
def read : Reader Method := do
  let name ← Reader.i32
  let flags ← Reader.i16
  let bodySize ← Reader.length
  let stackSize ← Reader.u8
  let locals ← Reader.u8
  let returnType ← TypeIndex.read
  let arguments ← Argument.readList
  let body ← Reader.bytes bodySize
  return { name, flags, stackSize, locals, returnType, arguments, body }

/-- Decodes a method block; bytes after the body are not read. -/
def decode (block : Bytes) : Except Error Method := read.decode block

/-- The bytes of a method block. -/
def encode (m : Method) : Except Error Bytes := do
  let bodySize ← Writer.length m.body.length
  let arguments ← Argument.listBytes m.arguments
  return Writer.i32 m.name ++ Writer.i16 m.flags ++ bodySize ++ Writer.u8 m.stackSize
    ++ Writer.u8 m.locals ++ m.returnType.bytes ++ arguments ++ m.body

end Method

/-- A label with its target. -/
structure Label where
  key : Int32
  /-- Word offset of the target instruction. -/
  position : Int32
  /-- Opcode at the target. -/
  opcode : UInt16
  deriving DecidableEq, Repr

namespace Label

/-- Reads one label. -/
def read : Reader Label := do return ⟨← Reader.i32, ← Reader.i32, ← Reader.u16⟩

/-- The bytes of one label. -/
def bytes (l : Label) : Bytes := Writer.i32 l.key ++ Writer.i32 l.position ++ Writer.u16 l.opcode

end Label

/-- A protected zone with its handlers by index. -/
structure Zone where
  /-- First address covered. -/
  start : Int32
  /-- Label that ends the protected block. -/
  tryEnd : Int32
  /-- Address after the last handler. -/
  stop : Int32
  filters : List Int32
  /-- Addresses of the handlers. -/
  catchAddresses : List Int32
  /-- Type index that each handler catches. -/
  catchTypes : List Int32
  kinds : Bytes
  deriving DecidableEq, Repr

namespace Zone

/-- Reads one zone. -/
def read : Reader Zone := do
  let start ← Reader.i32
  let tryEnd ← Reader.i32
  let stop ← Reader.i32
  let filters ← Reader.words
  let catchAddresses ← Reader.words
  let catchTypes ← Reader.words
  let kinds ← Reader.block
  return { start, tryEnd, stop, filters, catchAddresses, catchTypes, kinds }

/-- The bytes of one zone. -/
def bytes (z : Zone) : Except Error Bytes := do
  let filters ← Writer.words z.filters
  let catchAddresses ← Writer.words z.catchAddresses
  let catchTypes ← Writer.words z.catchTypes
  let kinds ← Writer.block z.kinds
  return Writer.i32 z.start ++ Writer.i32 z.tryEnd ++ Writer.i32 z.stop
    ++ filters ++ catchAddresses ++ catchTypes ++ kinds

end Zone

/-- A method body: instructions, labels and protected zones. -/
structure Code where
  instructions : List UInt32
  labels : List Int32
  labelMap : List Label
  zones : List Zone
  deriving DecidableEq, Repr

namespace Code

/-- The word that opens the table of protected zones. -/
def zoneMagic : Int16 := -0xFF1

/-- Reads the zones if the trailer begins with `zoneMagic`. -/
def readZones : Reader (List Zone) := do
  if (← get).remaining < 2 then return []
  else if (← Reader.peek Reader.i16) = zoneMagic then
    let _ ← Reader.i16
    Reader.list 28 Zone.read
  else return []

/-- Reads a method body. -/
def read : Reader Code := do
  let instructions ← Reader.list 4 Reader.u32
  let labels ← Reader.words
  let labelMap ← Reader.list 10 Label.read
  let zones ← readZones
  return { instructions, labels, labelMap, zones }

/-- Decodes a method body; bytes after the last table are not read. -/
def decode (body : Bytes) : Except Error Code := read.decode body

/-- The bytes of the zone table; no zones have none. -/
def zoneBytes (zones : List Zone) : Except Error Bytes :=
  if zones.isEmpty then .ok []
  else do return Writer.i16 zoneMagic ++ (← Writer.list Zone.bytes zones)

/-- The bytes of a method body. -/
def encode (c : Code) : Except Error Bytes := do
  let instructions ← Writer.list (fun w => .ok (Writer.u32 w)) c.instructions
  let labels ← Writer.words c.labels
  let labelMap ← Writer.list (fun l => .ok (Label.bytes l)) c.labelMap
  return instructions ++ labels ++ labelMap ++ (← zoneBytes c.zones)

end Code

end VaultKernel.Image
