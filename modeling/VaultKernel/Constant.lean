import VaultKernel.TypeCode
import VaultKernel.Decimal.Style
import VaultKernel.Decimal.Reading
import VaultKernel.Wire.Reader
import VaultKernel.Wire.Writer

/-!
# Constants

A constant is a typed scalar that an image stores as text. `Constant.text` writes it and
`Constant.read` reads a text back under a type code. A floating point number is held as its bit
pattern.
-/

namespace VaultKernel

/-- A typed scalar. -/
inductive Constant where
  | null
  | bool (value : Bool)
  | char (value : Char)
  | i8 (value : Int8)
  | u8 (value : UInt8)
  | i16 (value : Int16)
  | u16 (value : UInt16)
  | i32 (value : Int32)
  | u32 (value : UInt32)
  | i64 (value : Int64)
  | u64 (value : UInt64)
  /-- The bit pattern of a number of 32 bits. -/
  | f32 (bits : UInt32)
  /-- The bit pattern of a number of 64 bits. -/
  | f64 (bits : UInt64)
  | string (value : String)
  deriving DecidableEq, Repr

namespace Constant

/-- The type code that a constant is written with. -/
def typeCode : Constant → TypeCode
  | .null => .none
  | .bool _ => .boolean
  | .char _ => .char
  | .i8 _ => .i1
  | .u8 _ => .u1
  | .i16 _ => .i2
  | .u16 _ => .u2
  | .i32 _ => .i4
  | .u32 _ => .u4
  | .i64 _ => .i8
  | .u64 _ => .u8
  | .f32 _ => .r4
  | .f64 _ => .r8
  | .string _ => .string

/-- The word for a truth value. -/
def boolText (b : Bool) : String := if b then "true" else "false"

/-- The text that stands for a constant in an image. -/
def text : Constant → String
  | .null => ""
  | .bool v => boolText v
  | .char v => String.ofList [v]
  | .i8 v => Text.integer v.toInt
  | .u8 v => Text.natural v.toNat
  | .i16 v => Text.integer v.toInt
  | .u16 v => Text.natural v.toNat
  | .i32 v => Text.integer v.toInt
  | .u32 v => Text.natural v.toNat
  | .i64 v => Text.integer v.toInt
  | .u64 v => Text.natural v.toNat
  | .f32 bits => BinaryFormat.single.text .plain bits.toNat
  | .f64 bits => BinaryFormat.double.text .plain bits.toNat
  | .string v => v

/-- The truth value that a word stands for. -/
def bool? (text : String) : Option Bool :=
  if text = "true" then some true else if text = "false" then some false else none

/-- The only character of a text. -/
def onlyChar? (text : String) : Option Char :=
  match text.toList with
  | [c] => some c
  | _ => none

/-- Reads a signed number of `width` bits. -/
def signed? (width : Nat) (text : String) : Option Int :=
  Text.integerIn? (-(Nat.pow 2 (width - 1) : Nat)) (Nat.pow 2 (width - 1) - 1 : Nat) text

/-- Reads an unsigned number of `width` bits. -/
def unsigned? (width : Nat) (text : String) : Option Nat :=
  Text.unsignedUpTo? (Nat.pow 2 width - 1) text

/-- Reads a text as a constant of the given type. -/
def read? (code : TypeCode) (text : String) : Option Constant :=
  match code with
  | .none | .void => some .null
  | .boolean => (bool? text).map .bool
  | .char => (onlyChar? text).map .char
  | .i1 => (signed? 8 text).map fun z => .i8 (Int8.ofInt z)
  | .u1 => (unsigned? 8 text).map fun n => .u8 (UInt8.ofNat n)
  | .i2 => (signed? 16 text).map fun z => .i16 (Int16.ofInt z)
  | .u2 => (unsigned? 16 text).map fun n => .u16 (UInt16.ofNat n)
  | .i4 => (signed? 32 text).map fun z => .i32 (Int32.ofInt z)
  | .u4 => (unsigned? 32 text).map fun n => .u32 (UInt32.ofNat n)
  | .i8 => (signed? 64 text).map fun z => .i64 (Int64.ofInt z)
  | .u8 => (unsigned? 64 text).map fun n => .u64 (UInt64.ofNat n)
  | .r2 | .r4 => (BinaryFormat.single.read? text).map fun bits => .f32 (UInt32.ofNat bits)
  | .r8 | .r16 => (BinaryFormat.double.read? text).map fun bits => .f64 (UInt64.ofNat bits)
  | .string => some (.string text)
  | .object | .reference | .array | .token | .raw | .function => none

/-- Reads a text as the constant called `name`, which the error names. -/
def read (code : TypeCode) (name text : String) : Except Wire.Error Constant :=
  match read? code text with
  | some constant => .ok constant
  | none => .error (.invalidConstant name code.number text)

end Constant

/-- A constant under its key. -/
structure ConstantEntry where
  name : String
  value : Constant
  deriving DecidableEq, Repr

namespace ConstantEntry

/-- Turns the outcome of a pure step into a reader that reads nothing. -/
def liftExcept {α : Type} : Except Wire.Error α → Wire.Reader α
  | .ok a => return a
  | .error e => throw e

/-- Reads a type code, a key and the text of a value. -/
def reader : Wire.Reader ConstantEntry := do
  let code ← liftExcept (TypeCode.ofWire (← Wire.Reader.i32))
  let name ← Wire.Reader.text
  let text ← Wire.Reader.text
  return ⟨name, ← liftExcept (Constant.read code name text)⟩

/-- The bytes of an entry. -/
def bytes (entry : ConstantEntry) : Except Wire.Error Wire.Bytes := do
  let code := Wire.Writer.i32 (Int32.ofNat entry.value.typeCode.number)
  let name ← Wire.Writer.text entry.name
  return code ++ name ++ (← Wire.Writer.text entry.value.text)

/-- Reads a constant block; an entry takes at least a code and two lengths. -/
def decodeAll (block : Wire.Bytes) : Except Wire.Error (List ConstantEntry) :=
  (Wire.Reader.list 12 reader).decode block

/-- The bytes of a constant block. -/
def encodeAll (entries : List ConstantEntry) : Except Wire.Error Wire.Bytes :=
  Wire.Writer.list bytes entries

end ConstantEntry

end VaultKernel
