import VaultKernel.Class.Basic
import VaultKernel.Failure.Unresolved
import VaultKernel.Table

/-!
# Resolution

A declared class refers to strings, fields and types by index. `Symbols` holds the tables of a
module and the classes that it can see; resolution looks every index up in them and fails on the
first one that leads nowhere. It depends on the tables alone.
-/

namespace VaultKernel

/-- The tables of a module and the classes that are visible to it. -/
structure Symbols where
  /-- Name of the module, for diagnostics. -/
  module : String
  strings : Table Int32 String := {}
  types : Table Int32 TypeName := {}
  fields : Table Int32 FieldName := {}
  generics : Table Int32 GenericParam := {}
  classes : Table TypeName ClassRef := {}
  /-- The class that classes without a parent extend. -/
  root : ClassRef

namespace Symbols

/-- The type name under an index. -/
def typeName (s : Symbols) (index : Int32) : Except Unresolved TypeName :=
  match s.types.get? index with
  | some name => .ok name
  | none => .error (.typeIndex index s.module)

/-- The class whose name is under an index. -/
def classAt (s : Symbols) (index : Int32) : Except Unresolved ClassRef := do
  let name ← s.typeName index
  match s.classes.get? name with
  | some ref => .ok ref
  | none => .error (.type name.full s.module)

/-- The string under an index. -/
def string (s : Symbols) (index : Int32) : Except Unresolved String :=
  match s.strings.get? index with
  | some text => .ok text
  | none => .error (.stringIndex index s.module)

/-- The field name under an index. -/
def fieldName (s : Symbols) (index : Int32) : Except Unresolved FieldName :=
  match s.fields.get? index with
  | some name => .ok name
  | none => .error (.fieldIndex index s.module)

/-- The type that a type index stands for, with its short name. -/
def type (s : Symbols) : Wire.TypeIndex → Except Unresolved (TypeRef × String)
  | .type index => do
    let ref ← s.classAt index
    return (.class ref, (← s.typeName index).short)
  | .generic key =>
    match s.generics.get? key with
    | some param => .ok (.generic param, param.name)
    | none => .error (.genericKey key s.module)

/-- An argument with the short name of its type. -/
def argument (s : Symbols) (a : Image.Argument) : Except Unresolved (MethodArgument × String) := do
  let (type, typeName) ← s.type a.type
  return (⟨← s.string a.name, type⟩, typeName)

/-- Arguments with the short names of their types. -/
def arguments (s : Symbols) (args : List Image.Argument) :
    Except Unresolved (List MethodArgument × List String) := do
  return (← args.mapM s.argument).unzip

end Symbols

/-- A class body together with the class that it completes. -/
structure DeclaredClass where
  ref : ClassRef
  name : TypeName
  parents : List Int32
  methods : List Wire.Bytes
  fields : List Image.Field
  deriving DecidableEq, Repr

/-- The declaration that a class body makes for a class. -/
def DeclaredClass.ofBody (ref : ClassRef) (name : TypeName) (body : Image.ClassBody) :
    DeclaredClass :=
  { ref, name, parents := body.parents, methods := body.methods, fields := body.fields }

/-- A method whose types are resolved and whose body is not decoded. -/
structure ResolvedMethod where
  name : String
  signature : String
  flags : FlagSet MethodFlag
  returnType : TypeRef
  arguments : List MethodArgument
  maxStack : UInt8
  locals : UInt8
  body : Wire.Bytes
  deriving DecidableEq, Repr

/-- The signature of a method with the given argument types. -/
def ResolvedMethod.signatureOf (name : String) (argumentTypes : List String) : String :=
  name ++ "(" ++ Text.join "," argumentTypes ++ ")"

namespace DeclaredClass

/-- The parent of a class: the first listed class other than itself. Without a list it is the root
class, which itself has no parent. -/
def parent (c : DeclaredClass) (s : Symbols) : Except Unresolved (Option ClassRef) :=
  if c.parents.isEmpty then .ok (if c.ref ≠ s.root then some s.root else none)
  else do return (← c.parents.mapM s.classAt).find? (· ≠ c.ref)

/-- One method of a class. -/
def method (c : DeclaredClass) (s : Symbols) (block : Wire.Bytes) :
    Except Unresolved ResolvedMethod := do
  match Image.Method.decode block with
  | .error e => .error (.malformed c.name.full e)
  | .ok m =>
    let name ← s.string m.name
    let (returnType, _) ← s.type m.returnType
    let (arguments, argumentTypes) ← s.arguments m.arguments
    return {
      name, returnType, arguments
      signature := ResolvedMethod.signatureOf name argumentTypes
      flags := FlagSet.ofWire m.flags
      maxStack := m.stackSize
      locals := m.locals
      body := m.body }

/-- One field of a class. -/
def field (s : Symbols) (f : Image.Field) : Except Unresolved Field := do
  let name ← s.fieldName f.name
  let (type, _) ← s.type f.type
  return { name, type, flags := FlagSet.ofWire f.flags }

/-- The methods and fields of a class. -/
def members (c : DeclaredClass) (s : Symbols) :
    Except Unresolved (List ResolvedMethod × List Field) := do
  let methods ← c.methods.mapM (c.method s)
  return (methods, ← c.fields.mapM (field s))

end DeclaredClass

end VaultKernel
