import VaultKernel.Failure.Code
import VaultKernel.Handle
import VaultKernel.TypeCode

/-!
# Faults

A fault is an error that the running program can catch: a kernel operation was used on an object or
a value that does not fit.
-/

namespace VaultKernel

/-- Why an operation does not fit its operands. -/
inductive Fault where
  /-- The handle refers to no living object. -/
  | notAlive (object : ObjectRef)
  /-- A builtin needs the argument at this place. -/
  | argumentMissing (index : Nat)
  | indexOutOfRange (index : Int) (length : Nat)
  | tooLarge (value : UInt64)
  | notAnArray (className : String)
  | cannotStore (className element : String)
  | notPrimitive (className : String)
  | cannotBox (code : TypeCode)
  | expected (type : String) (found : TypeCode)
  /-- A fault that a caller reports in its own words. -/
  | reported (kind : FaultKind) (message : String)
  deriving DecidableEq, Repr

namespace Fault

/-- The kind of a fault. -/
def kind : Fault → FaultKind
  | .notAlive _ | .argumentMissing _ => .nullPointer
  | .indexOutOfRange _ _ | .tooLarge _ => .outOfRange
  | .notAnArray _ | .cannotStore _ _ | .notPrimitive _ | .cannotBox _ | .expected _ _ =>
    .typeMismatch
  | .reported kind _ => kind

/-- The wording of a fault. -/
def message : Fault → String
  | .notAlive object => object.objectText ++ " is not alive"
  | .argumentMissing index => "Builtin argument " ++ Text.natural index ++ " is null"
  | .indexOutOfRange index length =>
    "Index " ++ Text.integer index ++ " out of range for length " ++ Text.natural length
  | .tooLarge value => Text.natural value.toNat ++ " does not fit in Int64"
  | .notAnArray className => "'" ++ className ++ "' is not an array"
  | .cannotStore className element =>
    "Cannot store '" ++ className ++ "' in an array of '" ++ element ++ "'"
  | .notPrimitive className => "'" ++ className ++ "' is not a primitive class"
  | .cannotBox code => "Cannot box a " ++ code.name ++ " value"
  | .expected type found => "Expected " ++ type ++ ", found " ++ found.name
  | .reported _ message => message

end Fault

end VaultKernel
