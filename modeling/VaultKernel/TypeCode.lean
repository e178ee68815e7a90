import VaultKernel.Wire.Error

/-!
# Type codes

Every value, constant and predefined class carries a type code. On the wire a code is its position
in `TypeCode.all`.
-/

namespace VaultKernel

/-- The kind of a value. -/
inductive TypeCode where
  | none | void | object | boolean | char
  | i1 | u1 | i2 | u2 | i4 | u4 | i8 | u8
  | r2 | r4 | r8 | r16
  | string | reference | array | token | raw | function
  deriving DecidableEq, Repr

namespace TypeCode

/-- All type codes in the order of their numbers. -/
def all : List TypeCode :=
  [.none, .void, .object, .boolean, .char, .i1, .u1, .i2, .u2, .i4, .u4, .i8, .u8,
   .r2, .r4, .r8, .r16, .string, .reference, .array, .token, .raw, .function]

/-- The number of a code on the wire. -/
def number (code : TypeCode) : Nat := all.idxOf code

/-- The code with the given number. -/
def ofNumber? (number : Int32) : Option TypeCode :=
  if number.toInt < 0 then .none else all[number.toInt.toNat]?

/-- The code with the given number, or the error for a number that has none. -/
def ofWire (number : Int32) : Except Wire.Error TypeCode :=
  match ofNumber? number with
  | some code => .ok code
  | .none => .error (.invalidTypeCode number)

/-- The name of a code in diagnostics. -/
def name : TypeCode → String
  | .none => "None" | .void => "Void" | .object => "Object" | .boolean => "Boolean"
  | .char => "Char" | .i1 => "I1" | .u1 => "U1" | .i2 => "I2" | .u2 => "U2" | .i4 => "I4"
  | .u4 => "U4" | .i8 => "I8" | .u8 => "U8" | .r2 => "R2" | .r4 => "R4" | .r8 => "R8"
  | .r16 => "R16" | .string => "String" | .reference => "Class" | .array => "Array"
  | .token => "Token" | .raw => "Raw" | .function => "Function"

/-- Whether values of this code are stored inline instead of by reference. -/
def isPrimitive : TypeCode → Bool
  | .boolean | .char | .i1 | .u1 | .i2 | .u2 | .i4 | .u4 | .i8 | .u8
  | .r2 | .r4 | .r8 | .r16 | .string | .raw => true
  | _ => false

/-- The number of a type code stands for this code. -/
theorem ofNumber?_number (code : TypeCode) : ofNumber? (Int32.ofNat code.number) = some code := by
  cases code <;> decide

end TypeCode

end VaultKernel
