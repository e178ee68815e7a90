import VaultKernel.Constant
import VaultKernel.Image.Class

/-!
# Module images

The complete wire form of a module: a header, tables of strings, type names and field names, the
dependencies, classes, aliases and generic parameters, and the constants. Bytes after the constant
block are not read.
-/

namespace VaultKernel.Image

open Wire

/-- A text under its index. -/
structure StringEntry where
  index : Int32
  text : String
  deriving DecidableEq, Repr

/-- The parts of a qualified type name under their index. -/
structure TypeNameEntry where
  index : Int32
  /-- Name of the module that defines the type. -/
  assembly : String
  space : String
  name : String
  deriving DecidableEq, Repr

/-- The parts of a field name under their index. -/
structure FieldNameEntry where
  index : Int32
  name : String
  className : String
  deriving DecidableEq, Repr

/-- A module that another one needs. -/
structure DependencyEntry where
  name : String
  version : String
  deriving DecidableEq, Repr

/-- What an alias stands for. -/
inductive AliasTarget where
  | type (index : Int32)
  | method (returnType : TypeIndex) (arguments : List Argument)
  deriving DecidableEq, Repr

/-- A second name for a type or a method signature. -/
structure AliasEntry where
  key : Int32
  /-- Type index that names the alias. -/
  name : Int32
  target : AliasTarget
  deriving DecidableEq, Repr

/-- The kinds of constraint on a generic parameter. -/
inductive ConstraintKind where
  | bittable | referenceType | type | signature
  deriving DecidableEq, Repr

namespace ConstraintKind

/-- The kinds in the order of their numbers. -/
def all : List ConstraintKind := [.bittable, .referenceType, .type, .signature]

/-- The number of a kind on the wire. -/
def number (kind : ConstraintKind) : Nat := all.idxOf kind

/-- The kind with the given number. -/
def ofNumber? (number : Int32) : Option ConstraintKind :=
  if number.toInt < 0 then none else all[number.toInt.toNat]?

/-- Whether a constraint of this kind names a type. -/
def namesType : ConstraintKind → Bool
  | .type | .signature => true
  | .bittable | .referenceType => false

/-- The name of a kind in diagnostics. -/
def text : ConstraintKind → String
  | .bittable => "Bittable"
  | .referenceType => "Class"
  | .type => "Type"
  | .signature => "Signature"

end ConstraintKind

/-- A constraint on a generic parameter. -/
structure Constraint where
  kind : ConstraintKind
  typeIndex : Option Int32
  deriving DecidableEq, Repr

/-- A generic parameter under its key. -/
structure GenericEntry where
  key : Int32
  name : String
  constraints : List Constraint
  deriving DecidableEq, Repr

/-! ## Entries -/

namespace StringEntry

/-- Reads one string entry. -/
def read : Reader StringEntry := do return ⟨← Reader.i32, ← Reader.text⟩

/-- The bytes of one string entry. -/
def bytes (e : StringEntry) : Except Error Bytes := do
  return Writer.i32 e.index ++ (← Writer.text e.text)

end StringEntry

namespace TypeNameEntry

/-- Reads one type name. -/
def read : Reader TypeNameEntry := do
  return ⟨← Reader.i32, ← Reader.text, ← Reader.text, ← Reader.text⟩

/-- The bytes of one type name. -/
def bytes (e : TypeNameEntry) : Except Error Bytes := do
  let assembly ← Writer.text e.assembly
  let space ← Writer.text e.space
  return Writer.i32 e.index ++ assembly ++ space ++ (← Writer.text e.name)

end TypeNameEntry

namespace FieldNameEntry

/-- Reads one field name. -/
def read : Reader FieldNameEntry := do return ⟨← Reader.i32, ← Reader.text, ← Reader.text⟩

/-- The bytes of one field name. -/
def bytes (e : FieldNameEntry) : Except Error Bytes := do
  let name ← Writer.text e.name
  return Writer.i32 e.index ++ name ++ (← Writer.text e.className)

end FieldNameEntry

namespace DependencyEntry

/-- Reads one dependency. -/
def read : Reader DependencyEntry := do return ⟨← Reader.text, ← Reader.text⟩

/-- The bytes of one dependency. -/
def bytes (e : DependencyEntry) : Except Error Bytes := do
  let name ← Writer.text e.name
  return name ++ (← Writer.text e.version)

end DependencyEntry

/-- Reads one class block. -/
def ClassBody.readBlock : Reader ClassBody := do
  ConstantEntry.liftExcept (ClassBody.decode (← Reader.block))

/-- The bytes of one class block. -/
def ClassBody.blockBytes (c : ClassBody) : Except Error Bytes := do
  Writer.block (← c.encode)

namespace AliasTarget

/-- Reads whether the alias is for a type, and the type or the signature. -/
def read : Reader AliasTarget := do
  if ← Reader.bool then return .type (← Reader.i32)
  else return .method (← TypeIndex.read) (← Argument.readList)

/-- The bytes of an alias target. -/
def bytes : AliasTarget → Except Error Bytes
  | .type index => .ok (Writer.bool true ++ Writer.i32 index)
  | .method returnType arguments => do
    return Writer.bool false ++ returnType.bytes ++ (← Argument.listBytes arguments)

end AliasTarget

namespace AliasEntry

/-- Reads one alias. -/
def read : Reader AliasEntry := do return ⟨← Reader.i32, ← Reader.i32, ← AliasTarget.read⟩

/-- The bytes of one alias. -/
def bytes (e : AliasEntry) : Except Error Bytes := do
  return Writer.i32 e.key ++ Writer.i32 e.name ++ (← e.target.bytes)

end AliasEntry

namespace Constraint

/-- Reads a kind and, if the kind names a type, its index. -/
def read : Reader Constraint := do
  let number ← Reader.i32
  match ConstraintKind.ofNumber? number with
  | none => throw (.invalidConstraint number)
  | some kind => if kind.namesType then return ⟨kind, some (← Reader.i32)⟩ else return ⟨kind, none⟩

/-- The bytes of a constraint; an index is written whenever there is one. -/
def bytes (c : Constraint) : Bytes :=
  Writer.i32 (Int32.ofNat c.kind.number) ++ (c.typeIndex.map Writer.i32).getD []

end Constraint

namespace GenericEntry

/-- Reads one generic parameter. -/
def read : Reader GenericEntry := do
  return ⟨← Reader.i32, ← Reader.text, ← Reader.list 4 Constraint.read⟩

/-- The bytes of one generic parameter. -/
def bytes (e : GenericEntry) : Except Error Bytes := do
  let name ← Writer.text e.name
  let constraints ← Writer.list (fun c => .ok (Constraint.bytes c)) e.constraints
  return Writer.i32 e.key ++ name ++ constraints

end GenericEntry

end VaultKernel.Image

namespace VaultKernel

open Wire Image

/-- A module as it is stored. -/
structure ModuleImage where
  /-- String index of the module name. -/
  nameIndex : Int32
  /-- String index of the version. -/
  versionIndex : Int32
  strings : List StringEntry
  typeNames : List TypeNameEntry
  fieldNames : List FieldNameEntry
  dependencies : List DependencyEntry
  classes : List ClassBody
  aliases : List AliasEntry
  generics : List GenericEntry
  constants : List ConstantEntry
  deriving DecidableEq, Repr

namespace ModuleImage

/-- The format version that images have. -/
def formatVersion : Int32 := 13

/-- Refuses every format version but the current one. -/
def checkVersion (found : Int32) : Reader Unit :=
  if found = formatVersion then return () else throw (.unsupportedVersion found formatVersion)

/-- Reads an image. -/
def read : Reader ModuleImage := do
  let nameIndex ← Reader.i32
  let versionIndex ← Reader.i32
  checkVersion (← Reader.i32)
  let strings ← Reader.list 8 StringEntry.read
  let typeNames ← Reader.list 16 TypeNameEntry.read
  let fieldNames ← Reader.list 12 FieldNameEntry.read
  let dependencies ← Reader.list 8 DependencyEntry.read
  let classes ← Reader.list 4 ClassBody.readBlock
  let aliases ← Reader.list 13 AliasEntry.read
  let generics ← Reader.list 12 GenericEntry.read
  let constants ← ConstantEntry.liftExcept (ConstantEntry.decodeAll (← Reader.block))
  return { nameIndex, versionIndex, strings, typeNames, fieldNames, dependencies, classes,
           aliases, generics, constants }

/-- Decodes an image; bytes after the constant block are not read. -/
def decode (bytes : Bytes) : Except Error ModuleImage := read.decode bytes

/-- The bytes of an image. -/
def encode (m : ModuleImage) : Except Error Bytes := do
  let strings ← Writer.list StringEntry.bytes m.strings
  let typeNames ← Writer.list TypeNameEntry.bytes m.typeNames
  let fieldNames ← Writer.list FieldNameEntry.bytes m.fieldNames
  let dependencies ← Writer.list DependencyEntry.bytes m.dependencies
  let classes ← Writer.list ClassBody.blockBytes m.classes
  let aliases ← Writer.list AliasEntry.bytes m.aliases
  let generics ← Writer.list GenericEntry.bytes m.generics
  let constants ← Writer.block (← ConstantEntry.encodeAll m.constants)
  return Writer.i32 m.nameIndex ++ Writer.i32 m.versionIndex ++ Writer.i32 formatVersion
    ++ strings ++ typeNames ++ fieldNames ++ dependencies ++ classes ++ aliases ++ generics
    ++ constants

end ModuleImage

end VaultKernel
