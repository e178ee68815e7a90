/-!
# Reason codes

The stable codes of conditions that end the process, and the kinds of fault that a program can
catch.
-/

namespace VaultKernel

/-- The reason of a fatal condition. -/
inductive FatalCode where
  | assemblyCouldNotLoad
  | missingMethod
  | missingField
  | outOfMemory
  | nativeLibraryCouldNotLoad
  | nativeSymbolCouldNotFound
  | stateCorrupt
  | typeLoad
  deriving DecidableEq, Repr

namespace FatalCode

/-- The name of a code in diagnostics. -/
def text : FatalCode → String
  | .assemblyCouldNotLoad => "ASSEMBLY_COULD_NOT_LOAD"
  | .missingMethod => "MISSING_METHOD"
  | .missingField => "MISSING_FIELD"
  | .outOfMemory => "OUT_OF_MEMORY"
  | .nativeLibraryCouldNotLoad => "NATIVE_LIBRARY_COULD_NOT_LOAD"
  | .nativeSymbolCouldNotFound => "NATIVE_LIBRARY_SYMBOL_COULD_NOT_FOUND"
  | .stateCorrupt => "STATE_CORRUPT"
  | .typeLoad => "TYPE_LOAD"

/-- The number of a code, with which the process ends. -/
def number : FatalCode → Nat
  | .assemblyCouldNotLoad => 1
  | .missingMethod => 2
  | .missingField => 3
  | .outOfMemory => 4
  | .nativeLibraryCouldNotLoad => 5
  | .nativeSymbolCouldNotFound => 6
  | .stateCorrupt => 7
  | .typeLoad => 8

end FatalCode

/-- The kind of a fault; each has a predefined exception class. -/
inductive FaultKind where
  | nullPointer | outOfRange | typeMismatch | exception
  deriving DecidableEq, Repr

/-- The name of a kind of fault. -/
def FaultKind.text : FaultKind → String
  | .nullPointer => "NullPointer"
  | .outOfRange => "OutOfRange"
  | .typeMismatch => "TypeMismatch"
  | .exception => "Exception"

/-- The kind of fault with a name. -/
def FaultKind.ofText? (text : String) : Option FaultKind :=
  [.nullPointer, .outOfRange, .typeMismatch, .exception].find? (FaultKind.text · = text)

end VaultKernel
