import VaultKernel.Command.Opening

/-!
# Listing a module

A listing names a module, its dependencies and the class that every module gets, then its classes
with their fields, methods and aspects, and at last the aspects without a target.
-/

namespace VaultKernel

/-- The form of an aspect in a listing. -/
def Aspect.listing (a : Aspect) : String :=
  let arguments := a.arguments.map fun x => (Value.ofConstant x.value).annotated
  "@" ++ a.name ++ "(" ++ Text.join ", " arguments ++ ")"

/-- How a listing describes native code. -/
def NativeBinding.listing : NativeBinding → String
  | .builtin key _ => " = builtin " ++ key
  | .imported entity => " = " ++ entity.library ++ "!" ++ entity.symbol
  | .unavailable error => " = unavailable [" ++ error.code.text ++ "]"

namespace Vault

/-- The name of a type in a listing. -/
def typeListing (v : Vault) : TypeRef → String
  | .class ref => v.className ref
  | .generic param => param.name

/-- The word for members without a receiver. -/
def staticListing (isStatic : Bool) : String := if isStatic then "static " else ""

/-- The aspects of a member. -/
def memberAspects (aspects : List Aspect) : List String := aspects.map fun a => "    " ++ a.listing

/-- The lines of a field. -/
def fieldListing (v : Vault) (f : Field) : List String :=
  ("  " ++ staticListing f.isStatic ++ "field " ++ f.name.name ++ ": " ++ v.typeListing f.type) ::
    memberAspects f.aspects

/-- The lines of a method. -/
def methodListing (v : Vault) (m : Method) : List String :=
  ("  " ++ staticListing m.isStatic ++ "method " ++ m.signature ++ " -> "
    ++ v.typeListing m.returnType ++ ((m.native.map NativeBinding.listing).getD "")) ::
    memberAspects m.aspects

/-- The lines of a class. -/
def classListing (v : Vault) (c : Class) : List String :=
  let parent := (c.parent.map fun p => " : " ++ v.className p).getD ""
  [("class " ++ c.name.full ++ parent)] ++ c.aspects.map (fun a => "  " ++ a.listing)
    ++ c.fields.flatMap v.fieldListing ++ c.methods.flatMap v.methodListing ++ [""]

/-- The lines of a module. -/
def moduleListing (v : Vault) (m : Module) (all : Bool) : List String :=
  let classes := if all then m.classTable.map (·.ref) else m.ownClasses
  let unattached := m.aspects.map fun a => "  " ++ a.listing
  [m.name ++ "@" ++ m.version.text]
    ++ m.dependencies.map (fun d => "  depends on " ++ d.name ++ "@" ++ d.version.text)
    ++ (m.bootstrapper.map fun ref => "  bootstrapper " ++ v.className ref).toList
    ++ [""] ++ (classes.filterMap v.class?).flatMap v.classListing
    ++ if unattached.isEmpty then [] else "unattached aspects:" :: unattached

end Vault

/-- Lists a module. -/
def OpenModule.inspect (m : OpenModule) (all : Bool) : Session Unit := do
  match m.vault.module? m.module with
  | some module => Session.print (m.vault.moduleListing module all)
  | none => return ()
  let _ ← Session.answer m.dispose

end VaultKernel
