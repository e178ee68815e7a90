import VaultKernel.Vault.Object

/-!
# Call frames of a vault

Frames form chains through their callers. A thrown exception is recorded on its frame with the trace
of the chain; the search for a handler goes from frame to frame outwards and from zone to zone in
the order of the table. A frame is pushed only onto a living one, so the number of slots bounds
every walk along a chain.
-/

namespace VaultKernel

/-- The outcome of the search for a handler. -/
inductive HandlerSearch where
  | handled (frame : FrameRef) (address : Int32)
  /-- Nothing catches the exception; the text is its report. -/
  | unhandled (report : String)
  deriving DecidableEq, Repr

namespace Vault

/-- The system frame with a name. -/
def systemFrame? (v : Vault) (name : String) : Option FrameRef := v.systemFrames.lookup name

/-- A frame. -/
def frame? (v : Vault) (ref : FrameRef) : Option Frame := v.frames.get? ref

/-- A frame that must be there. -/
def frameOf (v : Vault) (ref : FrameRef) : Except Failure Frame :=
  match v.frame? ref with
  | some f => .ok f
  | none => .error (.fatal (.frameGone ref))

/-- The level of a frame that is called from another one. Levels are words of 32 bits. -/
def calleeLevel (v : Vault) (ref : FrameRef) : Except Failure UInt32 := do
  let caller ← v.frameOf ref
  if caller.level.toNat + 1 < 4294967296 then return caller.level + 1 else .error .overflow

/-- How a trace calls a frame: by the class and the method that it runs. -/
def frameTitle (v : Vault) (f : Frame) : String :=
  match f.method with
  | .managed m =>
    v.classNameWithSpace m.owner ++ "." ++ ((v.method? m).map (·.name)).getD "<unknown>"
  | .system name => "<sys>." ++ name

/-- The line of a frame in a trace. -/
def traceLine (v : Vault) (f : Frame) : String := "\tat " ++ v.frameTitle f ++ "\n"

/-- The lines of a frame and its callers, innermost first. -/
def traceFrom (v : Vault) : (fuel : Nat) → Option FrameRef → Except Failure (List String)
  | 0, _ => .ok []
  | _ + 1, none => .ok []
  | fuel + 1, some ref => do
    let f ← v.frameOf ref
    return v.traceLine f :: (← v.traceFrom fuel f.parent)

/-- The trace of a frame; it and all its callers must be there. -/
def stackTrace (v : Vault) (ref : FrameRef) : Except Failure String := do
  return String.join (← v.traceFrom (v.frames.slots.size + 1) (some ref))

/-- The protected zones of the method that a frame runs. -/
def zonesOf (v : Vault) (f : Frame) : List ProtectedZone :=
  match f.method with
  | .managed m => (((v.method? m).bind (·.header)).map (·.zones)).getD []
  | .system _ => []

/-- Whether a handler for a type catches an exception. -/
def catches (v : Vault) (thrown : ClassRef) : Option ClassRef → Bool
  | some type => v.isAssignable thrown type
  | none => true

/-- The address of the first handler of a zone that catches an exception. -/
def handlerInZone? (v : Vault) (thrown : ClassRef) (z : ProtectedZone) : Option Int32 :=
  (z.handlers.find? fun (type, _) => v.catches thrown type).map (·.2)

/-- The address of the first handler in a frame that catches an exception thrown at `address`. -/
def handlerInFrame? (v : Vault) (thrown : ClassRef) (f : Frame) (address : UInt32) :
    Option Int32 :=
  ((v.zonesOf f).filter (·.covers address)).findSome? (v.handlerInZone? thrown)

/-- Looks for a handler in a frame and then in its callers, each at its own address. The search ends
silently at a caller that is gone. -/
def handlerFrom (v : Vault) (thrown : ClassRef) :
    (fuel : Nat) → FrameRef → UInt32 → Except Failure (Option (FrameRef × Int32))
  | 0, _, _ => .ok none
  | fuel + 1, ref, address => do
    let f ← v.frameOf ref
    match v.handlerInFrame? thrown f address with
    | some handler => return some (ref, handler)
    | none =>
      match f.parent.bind fun p => (v.frame? p).map fun caller => (p, caller.address) with
      | some (p, callerAddress) => v.handlerFrom thrown fuel p callerAddress
      | none => return none

/-- Looks for a handler, or reports that there is none with the trace of the frame. -/
def findHandler (v : Vault) (ref : FrameRef) (address : UInt32) (thrown : ClassRef) :
    Except Failure HandlerSearch := do
  match ← v.handlerFrom thrown (v.frames.slots.size + 1) ref address with
  | some (frame, handler) => return .handled frame handler
  | none =>
    let trace ← v.stackTrace ref
    return .unhandled ("Unhandled exception " ++ v.className thrown ++ "\n" ++ trace)

end Vault

namespace Run

/-- Adds a frame for a call. -/
def pushFrame (parent : Option FrameRef) (method : FrameMethod) : Run FrameRef := do
  let level ← match parent with
    | some p => ask (·.calleeLevel p)
    | none => pure 0
  let v ← get
  let (ref, frames) := v.frames.allocate Frame.owner { parent, method, level }
  set { v with frames }
  return ref

/-- Removes a frame, which must not be a system frame. -/
def popFrame (ref : FrameRef) : Run Frame := do
  let v ← get
  if v.systemFrames.any (·.2 = ref) then fatal .systemFrameKept
  else
    match v.frames.remove ref with
    | (some f, frames) =>
      set { v with frames }
      return f
    | (none, _) => fatal (.frameGone ref)

/-- Changes a frame; tells whether it is there. -/
def changeFrame (ref : FrameRef) (f : Frame → Frame) : Run Bool := fun v =>
  .ok (v.frames.contains ref) { v with frames := v.frames.modify ref f }

/-- Records an exception on a frame. -/
def recordException (ref : FrameRef) (value : ObjectRef) : Run Unit := do
  let stackTrace ← ask (·.stackTrace ref)
  let _ ← changeFrame ref fun f =>
    { f with exception := some { value, stackTrace, address := f.address } }

/-- Throws a new instance of a class. -/
def throwException (ref : FrameRef) (type : ClassRef) : Run ObjectRef := do
  let value ← allocate type
  recordException ref value
  return value

/-- Throws a new instance of a class with a message. -/
def throwMessage (ref : FrameRef) (type : ClassRef) (message : String) : Run ObjectRef := do
  let v ← get
  match v.fieldOffset type CoreType.messageField with
  | .error _ => fatal (.messageFieldMissing (v.className type))
  | .ok offset =>
    let value ← allocate type
    setSlot value offset (.string message)
    recordException ref value
    return value

/-- Throws the exception of a fault; any other failure is passed on. -/
def throwFault (ref : FrameRef) : Failure → Run ObjectRef
  | .fault fault => throwMessage ref (CoreType.ofFault fault.kind).ref fault.message
  | other => throw other

end Run

end VaultKernel
