import VaultKernel.Constant
import VaultKernel.Handle
import VaultKernel.Token
import VaultKernel.Text.Quoted
import VaultKernel.Text.Split

/-!
# Values

A value is what a slot of an object, an argument or a place of the evaluation stack holds: a scalar,
a reference to an object, or the elements of an array. `Value.handles` lists the objects that a
value refers to, at any depth.
-/

namespace VaultKernel

/-- The content of a slot. -/
inductive Value where
  | null
  | bool (value : Bool)
  | char (value : Char)
  | i8 (value : Int8)
  | u8 (value : UInt8)
  | i16 (value : Int16)
  | u16 (value : UInt16)
  | i32 (value : Int32)
  | u32 (value : UInt32)
  | i64 (value : Int64)
  | u64 (value : UInt64)
  /-- The bit pattern of a number of 32 bits. -/
  | f32 (bits : UInt32)
  /-- The bit pattern of a number of 64 bits. -/
  | f64 (bits : UInt64)
  | string (value : String)
  | object (ref : ObjectRef)
  /-- A native address. -/
  | raw (address : UInt64)
  /-- A class by its token. -/
  | token (token : Token)
  /-- The elements of an array. -/
  | elements (items : List Value)
  deriving Inhabited

namespace Value

/-- The value of a constant. -/
def ofConstant : Constant → Value
  | .null => .null
  | .bool v => .bool v
  | .char v => .char v
  | .i8 v => .i8 v
  | .u8 v => .u8 v
  | .i16 v => .i16 v
  | .u16 v => .u16 v
  | .i32 v => .i32 v
  | .u32 v => .u32 v
  | .i64 v => .i64 v
  | .u64 v => .u64 v
  | .f32 bits => .f32 bits
  | .f64 bits => .f64 bits
  | .string v => .string v

/-- The type code of a value. -/
def typeCode : Value → TypeCode
  | .null => .none
  | .bool _ => .boolean
  | .char _ => .char
  | .i8 _ => .i1
  | .u8 _ => .u1
  | .i16 _ => .i2
  | .u16 _ => .u2
  | .i32 _ => .i4
  | .u32 _ => .u4
  | .i64 _ => .i8
  | .u64 _ => .u8
  | .f32 _ => .r4
  | .f64 _ => .r8
  | .string _ => .string
  | .object _ => .reference
  | .raw _ => .raw
  | .token _ => .token
  | .elements _ => .array

/-- Whether a slot is empty. -/
def isNull : Value → Bool
  | .null => true
  | _ => false

mutual

/-- The objects that a value refers to, in order. -/
def handles : Value → List ObjectRef
  | .object ref => [ref]
  | .elements items => handlesOfAll items
  | _ => []

/-- The objects that several values refer to, in order. -/
def handlesOfAll : List Value → List ObjectRef
  | [] => []
  | item :: rest => item.handles ++ handlesOfAll rest

end

/-- A content between the parentheses of its kind. -/
def labelled (kind content : String) : String := kind ++ "(" ++ content ++ ")"

mutual

/-- The form of a value in diagnostics. -/
def annotated : Value → String
  | .null => "Null"
  | .bool v => labelled "Bool" (Constant.boolText v)
  | .char v => labelled "Char" (Text.quotedChar v)
  | .i8 v => labelled "I8" (Text.integer v.toInt)
  | .u8 v => labelled "U8" (Text.natural v.toNat)
  | .i16 v => labelled "I16" (Text.integer v.toInt)
  | .u16 v => labelled "U16" (Text.natural v.toNat)
  | .i32 v => labelled "I32" (Text.integer v.toInt)
  | .u32 v => labelled "U32" (Text.natural v.toNat)
  | .i64 v => labelled "I64" (Text.integer v.toInt)
  | .u64 v => labelled "U64" (Text.natural v.toNat)
  | .f32 bits => labelled "F32" (BinaryFormat.single.text .annotated bits.toNat)
  | .f64 bits => labelled "F64" (BinaryFormat.double.text .annotated bits.toNat)
  | .string v => labelled "Str" (Text.quoted v)
  | .object ref => labelled "Object" ref.objectText
  | .raw address => labelled "Raw" (Text.natural address.toNat)
  | .token t => labelled "Token" t.text
  | .elements items => labelled "Elements" ("[" ++ Text.join ", " (annotatedAll items) ++ "]")

/-- The forms of several values in diagnostics. -/
def annotatedAll : List Value → List String
  | [] => []
  | item :: rest => item.annotated :: annotatedAll rest

end

end Value

end VaultKernel
