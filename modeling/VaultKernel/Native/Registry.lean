import VaultKernel.Native.Builtin
import VaultKernel.Native.LinkError
import VaultKernel.Text.Numeral
import VaultKernel.Text.Quoted

/-!
# The native registry

The registry knows the builtin functions and the native libraries. It asks its loader for a library
or a symbol only if it has no answer yet, and keeps every success; failures are asked for again. The
loader sees the number of calls made so far, so its answers may change from call to call.
-/

namespace VaultKernel

/-- Opens libraries and finds symbols in them. The first argument of both is the number of calls
made before. -/
structure LibraryLoader where
  /-- Opens the library at a path, or says why it cannot. -/
  openLibrary : Nat → String → Except String Unit
  /-- Finds a symbol in the library at a path, or says why it cannot. -/
  findSymbol : Nat → String → String → Except String UInt64

/-- Opens nothing. -/
def LibraryLoader.absent : LibraryLoader where
  openLibrary _ path := .error ("no platform loader installed for '" ++ path ++ "'")
  findSymbol _ _ name := .error ("undefined symbol: " ++ name)

/-- A loader that knows some libraries with the addresses of their symbols. -/
def LibraryLoader.ofTable (libraries : List (String × List (String × UInt64))) : LibraryLoader where
  openLibrary _ path :=
    if (libraries.lookup path).isSome then .ok () else .error ("cannot open '" ++ path ++ "'")
  findSymbol _ path name :=
    match (libraries.lookup path).bind (·.lookup name) with
    | some address => .ok address
    | none => .error ("undefined symbol: " ++ name)

/-- An open library and the symbols found in it. -/
structure NativeLibrary where
  path : String
  symbols : List (String × UInt64) := []
  deriving DecidableEq, Repr

/-- The form of a library in diagnostics. -/
def NativeLibrary.annotated (l : NativeLibrary) : String :=
  "NativeLibrary \x7b path: " ++ Text.quoted l.path ++ ", symbols: "
    ++ Text.natural l.symbols.length ++ " \x7d"

/-- The builtin functions and the open libraries. -/
structure NativeRegistry where
  loader : LibraryLoader := .absent
  libraries : List NativeLibrary := []
  builtins : List (String × Builtin) := []
  /-- How often the loader was asked for a library. -/
  loads : Nat := 0
  /-- How often the loader was asked for a symbol. -/
  lookups : Nat := 0

namespace NativeRegistry

/-- The number of calls of the loader. -/
def calls (r : NativeRegistry) : Nat := r.loads + r.lookups

/-- Makes a builtin available under its key; an earlier one under the same key is replaced. -/
def register (r : NativeRegistry) (name : String) (argumentTypes : List String)
    (function : Builtin) : NativeRegistry :=
  let key := Builtin.key name argumentTypes
  { r with builtins := (key, function) :: r.builtins.filter (·.1 ≠ key) }

/-- The registry with the standard builtins. -/
def withStandard (r : NativeRegistry) : NativeRegistry :=
  Builtin.standard.foldl (fun r (name, types, function) => r.register name types function) r

/-- The builtin under a key. -/
def builtin? (r : NativeRegistry) (key : String) : Option Builtin := r.builtins.lookup key

/-- The keys of the builtins in increasing order. -/
def builtinKeys (r : NativeRegistry) : List String :=
  (r.builtins.map (·.1)).mergeSort fun a b => !decide (b < a)

/-- The library opened at a path. -/
def library? (r : NativeRegistry) (path : String) : Option NativeLibrary :=
  r.libraries.find? (·.path = path)

/-- Opens the library at a path, unless it is open. -/
def load (r : NativeRegistry) (path : String) : Except LinkError NativeLibrary × NativeRegistry :=
  match r.library? path with
  | some library => (.ok library, r)
  | none =>
    let asked := { r with loads := r.loads + 1 }
    match r.loader.openLibrary r.calls path with
    | .ok () => (.ok { path }, { asked with libraries := r.libraries ++ [{ path }] })
    | .error reason => (.error (.libraryLoad path reason), asked)

/-- Keeps a symbol of the library at a path. -/
def keepSymbol (r : NativeRegistry) (path name : String) (address : UInt64) : NativeRegistry :=
  { r with libraries := r.libraries.map fun l =>
      if l.path = path then { l with symbols := l.symbols ++ [(name, address)] } else l }

/-- The symbol that was found in the library at a path. -/
def cached? (r : NativeRegistry) (path name : String) : Option UInt64 := do
  (← r.library? path).symbols.lookup name

/-- Finds a symbol in the open library at a path, unless it was found before. -/
def symbol (r : NativeRegistry) (path name : String) : Except LinkError UInt64 × NativeRegistry :=
  match r.cached? path name with
  | some address => (.ok address, r)
  | none =>
    let asked := { r with lookups := r.lookups + 1 }
    match r.loader.findSymbol r.calls path name with
    | .ok address => (.ok address, asked.keepSymbol path name address)
    | .error reason => (.error (.symbolNotFound path name reason), asked)

/-- Opens the library at a path and finds a symbol in it. -/
def resolve (r : NativeRegistry) (path name : String) : Except LinkError UInt64 × NativeRegistry :=
  match r.load path with
  | (.ok _, r) => r.symbol path name
  | (.error e, r) => (.error e, r)

/-- The form of a registry in diagnostics. -/
def annotated (r : NativeRegistry) : String :=
  "NativeRegistry \x7b libraries: " ++ Text.natural r.libraries.length ++ ", builtins: "
    ++ Text.natural r.builtins.length ++ " \x7d"

end NativeRegistry

end VaultKernel
