import VaultKernel.Class.Hierarchy
import VaultKernel.Failure.Basic

/-!
# Linking native methods

A native method carries an aspect with two texts, a library and a symbol. The library `__internal__`
stands for the builtins, which are looked up under the symbol and the argument types of the method;
any other library is asked for the symbol. A method whose code is not found is bound to the error. A
missing or malformed aspect fails the module.
-/

namespace VaultKernel

/-- A computation that may ask the registry. -/
abbrev Linker := EStateM Failure NativeRegistry

namespace Method

/-- The library that stands for the builtins. -/
def internalLibrary : String := "__internal__"

/-- The text of a constant that is one. -/
def textOf? : Constant → Option String
  | .string text => some text
  | _ => none

/-- The library and the symbol of a native method. -/
def nativeTarget (m : Method) : Except Fatal (String × String) :=
  match m.aspects.find? (·.name = Aspect.native) with
  | none => .error (.nativeAspectMissing m.name)
  | some aspect =>
    match aspect.arguments with
    | [library, symbol] =>
      match textOf? library.value, textOf? symbol.value with
      | some library, some symbol => .ok (library, symbol)
      | _, _ => .error (.nativeAspectKind m.name)
    | _ => .error (.nativeAspectCount m.name)

/-- The key of the builtin for a method: the symbol, and the signature from its first parenthesis
on. -/
def builtinKey (m : Method) (symbol : String) : String :=
  match Text.splitFirst '(' m.signature.toList with
  | some (_, rest) => symbol ++ String.ofList ('(' :: rest)
  | none => symbol ++ "()"

/-- The binding of a native method at its place. -/
def bind (m : Method) (place : MethodRef) : Linker NativeBinding := fun registry =>
  match m.nativeTarget with
  | .error cause => .error (.fatal cause) registry
  | .ok (library, symbol) =>
    if library = internalLibrary then
      let key := m.builtinKey symbol
      match registry.builtin? key with
      | some function => .ok (.builtin key function) registry
      | none => .ok (.unavailable (.builtinNotFound key)) registry
    else
      match registry.resolve library symbol with
      | (.ok address, registry) =>
        .ok (.imported { library, symbol, importer := place, address }) registry
      | (.error e, registry) => .ok (.unavailable e) registry

/-- Binds a method if it is native. -/
def link (m : Method) (place : MethodRef) : Linker Method := do
  if m.isNative then return { m with native := some (← m.bind place) } else return m

end Method

/-- Binds the native methods of a class, of which the first is at `index`. -/
def linkMethods (owner : ClassRef) : (index : Nat) → List Method → Linker (List Method)
  | _, [] => return []
  | index, m :: rest => do
    let linked ← m.link ⟨owner, index⟩
    return linked :: (← linkMethods owner (index + 1) rest)

/-- The methods of several classes in order, of which the native ones are bound. -/
def Classes.linked (classes : Classes) :
    List ClassRef → Linker (List (ClassRef × List Method))
  | [] => return []
  | ref :: rest => do
    match classes.get? ref with
    | some c =>
      let methods ← linkMethods ref 0 c.methods
      return (ref, methods) :: (← classes.linked rest)
    | none => classes.linked rest

end VaultKernel
