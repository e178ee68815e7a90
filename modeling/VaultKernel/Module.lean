import VaultKernel.Class.Resolution
import VaultKernel.Version.Basic

/-!
# Loaded modules

A module keeps its tables, the classes that it defines and those that it merely mentions, and the
modules that it depends on.
-/

namespace VaultKernel

/-- A second name for a class or a method signature. -/
inductive Alias where
  | type (name : TypeName) (target : ClassRef)
  | method (name : TypeName) (returnType : TypeRef) (arguments : List MethodArgument)
  deriving DecidableEq, Repr

/-- A module that another one depends on. -/
structure Dependency where
  name : String
  /-- The version that was asked for. -/
  version : Version
  /-- The module that was supplied. -/
  module : ModuleId
  deriving DecidableEq, Repr

/-- A class in the table of a module. -/
structure ClassEntry where
  ref : ClassRef
  /-- Whether the module defines the class. -/
  isOwn : Bool
  deriving DecidableEq, Repr

/-- A loaded module. -/
structure Module where
  id : ModuleId
  name : String
  version : Version := .zero
  strings : Table Int32 String := {}
  types : Table Int32 TypeName := {}
  fields : Table Int32 FieldName := {}
  generics : Table Int32 GenericParam := {}
  aliases : List Alias := []
  classTable : List ClassEntry := []
  dependencies : List Dependency := []
  /-- Aspects without a target in the module. -/
  aspects : List Aspect := []
  constants : ConstantTable := {}
  /-- The class that every module gets when it is loaded. -/
  bootstrapper : Option ClassRef := none

namespace Module

/-- The classes that a module defines, in order. -/
def ownClasses (m : Module) : List ClassRef :=
  m.classTable.filterMap fun e => if e.isOwn then some e.ref else none

/-- Whether a module defines a class. -/
def owns (m : Module) (ref : ClassRef) : Bool := ref ∈ m.ownClasses

/-- Mentions a class once. -/
def mention (m : Module) (ref : ClassRef) : Module :=
  if m.classTable.any (·.ref = ref) then m
  else { m with classTable := m.classTable ++ [⟨ref, false⟩] }

/-- Adds a class that the module defines. -/
def addOwn (m : Module) (ref : ClassRef) : Module :=
  { m with classTable := m.classTable ++ [⟨ref, true⟩] }

/-- The tables of a module with the classes that it can see. -/
def symbols (m : Module) (visible : Table TypeName ClassRef) (root : ClassRef) : Symbols :=
  { module := m.name, strings := m.strings, types := m.types, fields := m.fields,
    generics := m.generics, classes := visible, root }

end Module

end VaultKernel
