import VaultKernel.Value

/-!
# Call frames

A frame records a call: the method, its arguments and evaluation stack, the calling frame and a
pending exception. What a frame mentions stays alive.
-/

namespace VaultKernel

/-- The code that a frame runs. -/
inductive FrameMethod where
  | managed (method : MethodRef)
  /-- A frame of the runtime itself. -/
  | system (name : String)
  deriving DecidableEq, Repr

/-- An exception that was thrown in a frame. -/
structure FrameException where
  value : ObjectRef
  /-- One line for each frame of the chain, innermost first. -/
  stackTrace : String
  /-- The address at which it was thrown. -/
  address : UInt32
  deriving DecidableEq, Repr

/-- A call frame. -/
structure Frame where
  /-- The calling frame. -/
  parent : Option FrameRef
  method : FrameMethod
  returnValue : Value := .null
  arguments : List Value := []
  stack : List Value := []
  /-- The address executed last. -/
  address : UInt32 := 0
  /-- The number of frames below this one. -/
  level : UInt32 := 0
  exception : Option FrameException := none

namespace Frame

/-- The objects that a frame keeps alive. -/
def handles (f : Frame) : List ObjectRef :=
  f.returnValue.handles ++ Value.handlesOfAll f.arguments ++ Value.handlesOfAll f.stack
    ++ (f.exception.map (·.value)).toList

/-- The number that owns all frames in their arena. -/
def owner : Nat := 0

/-- The names of the frames that every vault has. -/
def systemNames : List String := ["quill_entry", "#module", "#jit", "#gc", "#ffi"]

end Frame

end VaultKernel
