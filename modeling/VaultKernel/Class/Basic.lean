import VaultKernel.Aspect
import VaultKernel.Class.Layout
import VaultKernel.Flag
import VaultKernel.Image.Module
import VaultKernel.Name.TypeName
import VaultKernel.Native.Registry
import VaultKernel.Token
import VaultKernel.Handle

/-!
# Classes

The descriptors of loaded classes with their fields and methods. Types are resolved: a type is a
class by its handle, or a generic parameter.
-/

namespace VaultKernel

/-- A constraint on a generic parameter, with its type resolved. -/
structure GenericConstraint where
  kind : Image.ConstraintKind
  type : Option ClassRef
  deriving DecidableEq, Repr

/-- A generic parameter. -/
structure GenericParam where
  name : String
  constraints : List GenericConstraint
  deriving DecidableEq, Repr

/-- A resolved type. -/
inductive TypeRef where
  | class (ref : ClassRef)
  | generic (param : GenericParam)
  deriving DecidableEq, Repr

/-- The class of a type that is no generic parameter. -/
def TypeRef.class? : TypeRef → Option ClassRef
  | .class ref => some ref
  | .generic _ => none

/-- An argument of a method. -/
structure MethodArgument where
  name : String
  type : TypeRef
  deriving DecidableEq, Repr

/-- A protected zone with its catch types resolved. -/
structure ProtectedZone where
  start : Int32
  tryEnd : Int32
  stop : Int32
  filters : List Int32
  catchAddresses : List Int32
  /-- What each handler catches; `none` catches everything. -/
  catchTypes : List (Option ClassRef)
  kinds : Wire.Bytes
  deriving DecidableEq, Repr

namespace ProtectedZone

/-- Whether an address lies in the zone, which its end does not. -/
def covers (z : ProtectedZone) (address : UInt32) : Bool :=
  z.start.toInt ≤ (address.toNat : Int) && (address.toNat : Int) < z.stop.toInt

/-- The handlers with what they catch, in order. -/
def handlers (z : ProtectedZone) : List (Option ClassRef × Int32) :=
  z.catchTypes.zip z.catchAddresses

end ProtectedZone

/-- The decoded body of a method. -/
structure MethodHeader where
  code : List UInt32
  maxStack : UInt8
  locals : UInt8
  labels : List Int32
  labelMap : List Image.Label
  zones : List ProtectedZone
  deriving DecidableEq, Repr

/-- A method bound to a symbol of a native library. -/
structure NativeImport where
  library : String
  symbol : String
  /-- The method that the symbol implements. -/
  importer : MethodRef
  address : UInt64
  deriving DecidableEq, Repr

/-- How a native method is bound. -/
inductive NativeBinding where
  | builtin (key : String) (function : Builtin)
  | imported (entity : NativeImport)
  /-- Linking failed; calling the method is fatal. -/
  | unavailable (error : LinkError)
  deriving DecidableEq, Repr

/-- A method of a class. -/
structure Method where
  name : String
  /-- The name with the short names of the argument types. -/
  signature : String
  flags : FlagSet MethodFlag
  returnType : TypeRef
  arguments : List MethodArgument
  /-- The body; native and abstract methods have none. -/
  header : Option MethodHeader := none
  aspects : List Aspect := []
  /-- The binding of a native method. -/
  native : Option NativeBinding := none
  deriving DecidableEq, Repr

namespace Method

/-- Whether a method is implemented by native code. -/
def isNative (m : Method) : Bool := m.flags.has .native

/-- Whether a method has no receiver. -/
def isStatic (m : Method) : Bool := m.flags.has .static

/-- Whether a method has this name or this signature. -/
def isCalled (m : Method) (query : String) : Bool := m.name = query || m.signature = query

end Method

/-- A field of a class. -/
structure Field where
  name : FieldName
  type : TypeRef
  flags : FlagSet FieldFlag
  aspects : List Aspect := []
  deriving DecidableEq, Repr

/-- Whether a field is shared by all instances. -/
def Field.isStatic (f : Field) : Bool := f.flags.has .static

/-- A class of a vault. -/
structure Class where
  name : TypeName
  /-- The class that this one extends. -/
  parent : Option ClassRef := none
  flags : ClassFlags
  /-- The code of a predefined class; other classes have the code of classes. -/
  typeCode : TypeCode := .reference
  fields : List Field := []
  methods : List Method := []
  aspects : List Aspect := []
  token : Token
  /-- The module that defines the class. -/
  owner : ModuleId
  /-- The slots of the instances, once they are known. -/
  layout : Option Layout := none

namespace Class

/-- Whether the members of a class are in place. -/
def isCompleted (c : Class) : Bool := !c.flags.notCompleted

/-- The number of slots of an instance. -/
def slotCount (c : Class) : Nat := (c.layout.map Layout.size).getD 0

/-- The first declared field with a short name. -/
def field? (c : Class) (name : String) : Option Field := c.fields.find? (·.name.name = name)

/-- The first declared method with a name or signature, and its place. -/
def method? (c : Class) (query : String) : Option (Nat × Method) := do
  let index ← c.methods.findIdx? (·.isCalled query)
  return (index, ← c.methods[index]?)

/-- The short names of the declared fields. -/
def fieldNames (c : Class) : List String := c.fields.map (·.name.name)

end Class

end VaultKernel
