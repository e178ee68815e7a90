import VaultKernel.Failure.Code

/-!
# Linking errors

Why a method could not be bound to native code. The binding keeps the error, which becomes fatal
only when the method is called.
-/

namespace VaultKernel

/-- Why native code is not available. -/
inductive LinkError where
  | libraryLoad (path reason : String)
  | symbolNotFound (path symbol reason : String)
  | builtinNotFound (key : String)
  deriving DecidableEq, Repr

namespace LinkError

/-- The name of the kind of a linking error. -/
def name : LinkError → String
  | .libraryLoad _ _ => "LibraryLoad"
  | .symbolNotFound _ _ _ => "SymbolNotFound"
  | .builtinNotFound _ => "BuiltinNotFound"

/-- The reason code when the method is called. -/
def code : LinkError → FatalCode
  | .libraryLoad _ _ => .nativeLibraryCouldNotLoad
  | .symbolNotFound _ _ _ | .builtinNotFound _ => .nativeSymbolCouldNotFound

/-- The wording of a linking error. -/
def message : LinkError → String
  | .libraryLoad path reason => "Native library '" ++ path ++ "' could not be loaded: " ++ reason
  | .symbolNotFound path symbol reason =>
    "Symbol '" ++ symbol ++ "' not found in native library '" ++ path ++ "': " ++ reason
  | .builtinNotFound key => "Internal native '" ++ key ++ "' is not registered"

end LinkError

end VaultKernel
