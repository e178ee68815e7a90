import VaultKernel.Vault.Basic

/-!
# Objects of a vault

Allocation, look-up and change of objects. An allocation collects first when the heap has crossed
its threshold; the roots of a collection are the objects that the call frames mention.
-/

namespace VaultKernel

/-- Bytes per slot. -/
def slotSize : UInt64 := 8

namespace Vault

/-- The objects that the call frames mention. -/
def roots (v : Vault) : List ObjectRef := v.frames.toList.flatMap fun (_, f) => f.handles

/-- Removes the objects that nothing keeps alive; the count of them comes first. -/
def collected (v : Vault) : Nat × Vault :=
  let (reclaimed, heap) := v.heap.collect v.roots
  (reclaimed, { v with heap })

/-- The failure that a refused allocation is. -/
def allocationFailure : HeapError → Failure
  | .outOfMemory requested alive limit => .fatal (.outOfMemory requested alive limit)
  | .overflow => .overflow
  | e => .heap e

/-- An empty instance of a class and its payload, which `extra` slots enlarge. -/
def newObject (v : Vault) (ref : ClassRef) (extra : Nat) : Except Failure (Object × UInt64) := do
  let c ← v.classOf ref
  let size := (c.slotCount + extra) * slotSize.toNat
  if !c.isCompleted || c.layout.isNone then .error (.fatal (.incompleteClass c.name.full))
  else if size < 18446744073709551616 then
    return (Object.blank ref c.slotCount, UInt64.ofNat size)
  else .error .overflow

/-- The class of an object. -/
def objectClass (v : Vault) (r : ObjectRef) : Except Failure ClassRef :=
  match v.heap.get? r with
  | some o => .ok o.type
  | none => .error (.fault (.notAlive r))

/-- The content of a slot. -/
def slot (v : Vault) (r : ObjectRef) (offset : Nat) : Except Failure Value :=
  match v.heap.get? r with
  | none => .error (.fault (.notAlive r))
  | some o =>
    match o.slot? offset with
    | some value => .ok value
    | none => .error (.fatal (.slotOutside offset r))

/-- The content of a field. -/
def getField (v : Vault) (r : ObjectRef) (name : String) : Except Failure Value := do
  v.slot r (← v.fieldOffset (← v.objectClass r) name)

end Vault

namespace Run

/-- Removes the objects that nothing keeps alive and counts them. -/
def collect : Run Nat := fun v =>
  let (reclaimed, v) := v.collected
  .ok reclaimed v

/-- Stores an object on the heap. -/
def store (object : Object) (size : UInt64) (immortal : Bool) : Run ObjectRef := fun v =>
  match v.heap.insert object size immortal with
  | .ok r heap => .ok r { v with heap }
  | .error e heap => .error (Vault.allocationFailure e) { v with heap }

/-- Collects if a collection is due. -/
def collectIfDue : Run Unit := do
  if (← get).heap.isCollectionDue then let _ ← collect

/-- Allocates an instance of a class whose payload `extra` slots enlarge. -/
def allocateSized (ref : ClassRef) (extra : Nat) : Run ObjectRef := do
  ask Vault.ensureAlive
  let (object, size) ← ask (·.newObject ref extra)
  collectIfDue
  store object size false

/-- Allocates an instance of a class. -/
def allocate (ref : ClassRef) : Run ObjectRef := allocateSized ref 0

/-- Allocates an instance of a class that no collection removes. -/
def allocateImmortal (ref : ClassRef) : Run ObjectRef := do
  ask Vault.ensureAlive
  let (object, size) ← ask (·.newObject ref 0)
  store object size true

/-- Removes an object. -/
def free (r : ObjectRef) : Run Unit := fun v =>
  match v.heap.free r with
  | .ok _ heap => .ok () { v with heap }
  | .error e heap => .error (.heap e) { v with heap }

/-- Changes the content of a slot. -/
def setSlot (r : ObjectRef) (offset : Nat) (value : Value) : Run Unit := do
  let _ ← ask (·.slot r offset)
  modify fun v => { v with heap := v.heap.modify r fun o => o.setSlot offset value }

/-- Changes the content of a field. -/
def setField (r : ObjectRef) (name : String) (value : Value) : Run Unit := do
  let offset ← ask fun v => do v.fieldOffset (← v.objectClass r) name
  setSlot r offset value

end Run

end VaultKernel
