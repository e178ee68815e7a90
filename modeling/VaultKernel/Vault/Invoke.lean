import VaultKernel.Vault.Boxing
import VaultKernel.Vault.Frames

/-!
# Calling native methods

A builtin runs in the vault on behalf of a frame. A fault becomes an exception on that frame and the
builtin returns nothing; any other failure is swallowed, unless the process stops. What a builtin
writes is part of its outcome.
-/

namespace VaultKernel

/-- What a builtin did. -/
inductive NativeOutcome where
  | returned (value : Option ObjectRef) (output : String)
  /-- The process is to end with this code. -/
  | exited (code : Int32)
  deriving DecidableEq, Repr

/-- The arguments of a builtin; missing ones are empty. -/
abbrev NativeArguments := List (Option ObjectRef)

/-- The number of arguments that a builtin can have. -/
def maxNativeArguments : Nat := 8

namespace Run

/-- The argument at a place. -/
def argument? (args : NativeArguments) (index : Nat) : Option ObjectRef :=
  (args.take maxNativeArguments)[index]?.join

/-- The argument at a place, which must not be empty. -/
def argument (args : NativeArguments) (index : Nat) : Run ObjectRef :=
  match argument? args index with
  | some r => return r
  | none => throw (.fault (.argumentMissing index))

/-- The text of the argument at a place. -/
def textArgument (args : NativeArguments) (index : Nat) : Run String := do
  let r ← argument args index
  ask (·.unboxAs Value.toText r)

/-- The text of the argument at a place as it is written; an empty one is `null`. -/
def displayArgument (args : NativeArguments) (index : Nat) : Run String :=
  match argument? args index with
  | some r => ask (·.unboxAs Value.toText r)
  | none => return "null"

/-- The integer of the argument at a place. -/
def integerArgument (args : NativeArguments) (index : Nat) : Run Int32 := do
  let r ← argument args index
  ask (·.unboxAs Value.toInt32 r)

/-- Returns a boxed value. -/
def returnBoxed (value : Value) : Run NativeOutcome := do return .returned (some (← box value)) ""

/-- What a builtin does if nothing goes wrong. -/
def builtinBody (function : Builtin) (args : NativeArguments) : Run NativeOutcome := do
  match function with
  | .printLine => return .returned none ((← displayArgument args 0) ++ "\n")
  | .print => return .returned none (← displayArgument args 0)
  | .concat =>
    let first ← textArgument args 0
    returnBoxed (.string (first ++ (← textArgument args 1)))
  | .integerText => returnBoxed (.string (Text.integer (← integerArgument args 0).toInt))
  | .exit => return .exited (← integerArgument args 0)
  | .collect => returnBoxed (.i32 (Int32.ofNat (min (← collect) 2147483647)))
  | .countAlive =>
    returnBoxed (.i64 (Int64.ofNat (min (← get).heap.stats.aliveObjects 9223372036854775807)))
  | .firstArgument => return .returned (argument? args 0) ""

/-- What comes of a failure of a builtin: it returns nothing, unless the process stops. -/
def swallow : Failure → Run NativeOutcome
  | .overflow => throw .overflow
  | _ => return .returned none ""

/-- Runs a builtin on behalf of a frame. -/
def callBuiltin (function : Builtin) (frame : FrameRef) (args : NativeArguments) :
    Run NativeOutcome := fun v =>
  match builtinBody function args v with
  | .ok outcome v => .ok outcome v
  | .error (.fault fault) v =>
    match throwFault frame (.fault fault) v with
    | .ok _ v => .ok (.returned none "") v
    | .error failure v => swallow failure v
  | .error failure v => swallow failure v

/-- Calls the native code of a method. -/
def invokeNative (m : MethodRef) (frame : FrameRef) (args : NativeArguments) :
    Run NativeOutcome := do
  match (← get).method? m with
  | none => fatal (.methodMissing m)
  | some method =>
    match method.native with
    | some (.builtin _ function) => callBuiltin function frame args
    | some (.unavailable e) => fatal (.unavailable e)
    | some (.imported entity) => fatal (.bridgeNeeded method.signature entity.symbol)
    | none => fatal (.bindingMissing method.signature)

end Run

end VaultKernel
