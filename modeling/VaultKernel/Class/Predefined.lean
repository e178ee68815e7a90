import VaultKernel.Class.Hierarchy

/-!
# Predefined classes

Every vault begins with the same classes, in the order of `CoreType.all` and owned by the first
module number. They are never removed, so the handle of each is known beforehand.
-/

namespace VaultKernel

/-- A predefined class. -/
inductive CoreType where
  | object | void | boolean | char
  | int8 | uint8 | int16 | uint16 | int32 | uint32 | int64 | uint64
  | float | double | string | raw
  | array | function | aspect
  | exception | nullPointerException | outOfRangeException | typeMismatchException
  deriving DecidableEq, Repr

namespace CoreType

/-- The predefined classes in the order of their handles. -/
def all : List CoreType :=
  [.object, .void, .boolean, .char, .int8, .uint8, .int16, .uint16, .int32, .uint32, .int64,
   .uint64, .float, .double, .string, .raw, .array, .function, .aspect, .exception,
   .nullPointerException, .outOfRangeException, .typeMismatchException]

/-- The module number that owns the predefined classes. -/
def owner : ModuleId := 1

/-- The handle of a predefined class. -/
def ref (t : CoreType) : ClassRef := ⟨all.idxOf t, 0⟩

/-- The short name of a predefined class. -/
def short : CoreType → String
  | .object => "Object" | .void => "Void" | .boolean => "Boolean" | .char => "Char"
  | .int8 => "Int8" | .uint8 => "UInt8" | .int16 => "Int16" | .uint16 => "UInt16"
  | .int32 => "Int32" | .uint32 => "UInt32" | .int64 => "Int64" | .uint64 => "UInt64"
  | .float => "Float" | .double => "Double" | .string => "String" | .raw => "Raw"
  | .array => "Array" | .function => "Function" | .aspect => "Aspect"
  | .exception => "Exception" | .nullPointerException => "NullPointerException"
  | .outOfRangeException => "OutOfRangeException"
  | .typeMismatchException => "TypeMismatchException"

/-- The full name of a predefined class. -/
def name (t : CoreType) : TypeName := TypeName.ofParts "std" "std" t.short

/-- The type code of a predefined class. -/
def typeCode : CoreType → TypeCode
  | .object => .object | .void => .void | .boolean => .boolean | .char => .char
  | .int8 => .i1 | .uint8 => .u1 | .int16 => .i2 | .uint16 => .u2
  | .int32 => .i4 | .uint32 => .u4 | .int64 => .i8 | .uint64 => .u8
  | .float => .r4 | .double => .r8 | .string => .string | .raw => .raw
  | .array => .array | .function => .function
  | .aspect | .exception | .nullPointerException | .outOfRangeException
  | .typeMismatchException => .reference

/-- The parent of a predefined class. -/
def parent? : CoreType → Option CoreType
  | .object => none
  | .nullPointerException | .outOfRangeException | .typeMismatchException => some .exception
  | _ => some .object

/-- The slot that holds the scalar of a primitive object, or the elements of an array. -/
def valueField : String := "!!value"

/-- The slot that holds the bytes per element of an array. -/
def blockField : String := "!!block"

/-- The slot that holds the number of elements of an array. -/
def sizeField : String := "!!size"

/-- The slot that holds the number of dimensions of an array. -/
def rankField : String := "!!rank"

/-- The slot that holds the token of the element class of an array. -/
def classField : String := "!!class"

/-- The slot that holds the text of an exception. -/
def messageField : String := "message"

/-- The fields of a predefined class with their types. -/
def fieldTypes (t : CoreType) : List (String × CoreType) :=
  match t with
  | .array =>
    [(valueField, .array), (blockField, .uint64), (sizeField, .uint64), (rankField, .uint64),
     (classField, .raw)]
  | .exception => [(messageField, .string)]
  | _ => if t.typeCode.isPrimitive then [(valueField, t)] else []

/-- The fields of a predefined class. -/
def fields (t : CoreType) : List Field :=
  t.fieldTypes.map fun (name, type) =>
    { name := ⟨t.short, name⟩
      type := .class type.ref
      flags := FlagSet.ofList [.openAccess, .special] }

/-- The declared flags of a predefined class. -/
def flags (t : CoreType) : FlagSet ClassFlag :=
  FlagSet.ofList (if t = .aspect then [.openAccess, .aspect] else [.openAccess])

/-- The descriptor of a predefined class under its number. -/
def descriptor (t : CoreType) (classId : UInt16) : Class where
  name := t.name
  parent := t.parent?.map ref
  flags := { declared := t.flags }
  typeCode := t.typeCode
  fields := t.fields
  token := ⟨owner, classId⟩
  owner := owner

/-- The predefined class with a full name. -/
def find? (name : TypeName) : Option CoreType := all.find? (·.name = name)

/-- The predefined class of the values with a type code. -/
def ofTypeCode? : TypeCode → Option CoreType
  | .object => some .object | .void => some .void | .boolean => some .boolean
  | .char => some .char | .i1 => some .int8 | .u1 => some .uint8 | .i2 => some .int16
  | .u2 => some .uint16 | .i4 => some .int32 | .u4 => some .uint32 | .i8 => some .int64
  | .u8 => some .uint64 | .r2 | .r4 => some .float | .r8 | .r16 => some .double
  | .string => some .string | .raw => some .raw | .array => some .array
  | .function => some .function
  | .none | .reference | .token => none

/-- The exception class of a kind of fault. -/
def ofFault : FaultKind → CoreType
  | .nullPointer => .nullPointerException
  | .outOfRange => .outOfRangeException
  | .typeMismatch => .typeMismatchException
  | .exception => .exception

/-- Whether a handle is that of a predefined class. -/
def isPredefined (ref : ClassRef) : Bool := all.any (·.ref = ref)

/-- Stores the descriptor of a predefined class under the next class number. -/
def define (state : TokenCounter × Classes) (t : CoreType) :
    Except Fatal (TokenCounter × Classes) :=
  match state.1.nextClass? with
  | some (classId, tokens) =>
    .ok (tokens, (state.2.allocate owner.toNat (t.descriptor classId)).2)
  | none => .error .classIdsExhausted

/-- Stores all predefined classes and gives them their layouts. -/
def install (tokens : TokenCounter) : Except Fatal (TokenCounter × Classes) := do
  let (tokens, classes) ← all.foldlM define (tokens, {})
  return (tokens, ← all.foldlM (fun classes t => classes.initLayout t.ref) classes)

end CoreType

end VaultKernel
