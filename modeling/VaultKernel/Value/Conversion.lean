import VaultKernel.Failure.Fault
import VaultKernel.Value

/-!
# Converting values

Narrow integers and characters convert to wider integers, and integers to numbers of 64 bits. Every
other conversion is a type mismatch that names what was expected.
-/

namespace VaultKernel.Value

/-- The value as an integer of 32 bits, if it is a narrower one or a character. -/
def int32? : Value → Option Int32
  | .i8 v => some (Int32.ofInt v.toInt)
  | .u8 v => some (Int32.ofNat v.toNat)
  | .i16 v => some (Int32.ofInt v.toInt)
  | .u16 v => some (Int32.ofNat v.toNat)
  | .i32 v => some v
  | .char c => some (Int32.ofNat c.toNat)
  | _ => none

/-- The value as an integer of 32 bits. -/
def toInt32 (v : Value) : Except Fault Int32 :=
  match v.int32? with
  | some n => .ok n
  | none => .error (.expected "Int32" v.typeCode)

/-- The value as an integer of 64 bits. An unsigned value may be out of range. -/
def toInt64 : Value → Except Fault Int64
  | .u32 v => .ok (Int64.ofNat v.toNat)
  | .i64 v => .ok v
  | .u64 v =>
    if v.toNat < 9223372036854775808 then .ok (Int64.ofNat v.toNat) else .error (.tooLarge v)
  | v =>
    match v.int32? with
    | some n => .ok (Int64.ofInt n.toInt)
    | none => .error (.expected "Int64" v.typeCode)

/-- The value as a truth value. -/
def toBool : Value → Except Fault Bool
  | .bool b => .ok b
  | v => .error (.expected "Boolean" v.typeCode)

/-- The bit pattern of the value as a number of 64 bits. -/
def toDouble : Value → Except Fault UInt64
  | .f32 bits =>
    .ok (UInt64.ofNat (BinaryFormat.double.ofNumber (BinaryFormat.single.decode bits.toNat)))
  | .f64 bits => .ok bits
  | v =>
    match v.toInt64 with
    | .ok n => .ok (UInt64.ofNat (BinaryFormat.double.ofInt n.toInt))
    | .error _ => .error (.expected "Double" v.typeCode)

/-- The value as a text. -/
def toText : Value → Except Fault String
  | .string text => .ok text
  | v => .error (.expected "String" v.typeCode)

end VaultKernel.Value
