import VaultKernel.Vault.Boxing

/-!
# Arrays

An array is an instance of the predefined array class. Its value slot holds the elements and the
other slots its size, rank, bytes per element and element class. Elements of a primitive class are
stored without their boxes. The elements are a vector of values; one with more bytes than a vector
can have stops the process. That the machine itself runs out of memory is not modelled.
-/

namespace VaultKernel

/-- Bytes per element of a vector of values. -/
def elementSize : Nat := 24

/-- The largest number of bytes that a vector can have. -/
def vectorLimit : Nat := 9223372036854775807

namespace Vault

/-- Refuses an object that is no array. -/
def ensureArray (v : Vault) (r : ObjectRef) : Except Failure Unit := do
  let ref ← v.objectClass r
  if ref = CoreType.array.ref then return () else .error (.fault (.notAnArray (v.className ref)))

/-- A number in a slot of an array. -/
def arrayNumber (v : Vault) (r : ObjectRef) (field : String) : Except Failure UInt64 := do
  v.ensureArray r
  match ← v.getField r field with
  | .u64 n => return n
  | other => .error (.fatal (.arraySlot field other))

/-- The number of elements of an array. -/
def arrayLength (v : Vault) (r : ObjectRef) : Except Failure Nat := do
  return (← v.arrayNumber r CoreType.sizeField).toNat

/-- The number of dimensions of an array. -/
def arrayRank (v : Vault) (r : ObjectRef) : Except Failure UInt64 :=
  v.arrayNumber r CoreType.rankField

/-- The element class of an array. -/
def arrayClass (v : Vault) (r : ObjectRef) : Except Failure ClassRef := do
  v.ensureArray r
  match ← v.getField r CoreType.classField with
  | .token token =>
    match v.findToken? token with
    | some ref => return ref
    | none => .error (.fatal (.arrayClassGone token))
  | other => .error (.fatal (.arrayClassSlot other))

/-- An index as a place among the elements. -/
def arrayIndex (v : Vault) (r : ObjectRef) (index : Int) : Except Failure Nat := do
  let length ← v.arrayLength r
  if 0 ≤ index ∧ index < length then return index.toNat
  else .error (.fault (.indexOutOfRange index length))

/-- The elements of an array. -/
def arrayElements (v : Vault) (r : ObjectRef) : Except Failure (List Value) := do
  match ← v.getField r CoreType.valueField with
  | .elements items => return items
  | other => .error (.fatal (.arrayStorage other))

/-- An array of `size` empty elements. -/
def emptyElements (size : Nat) : Except Failure Value :=
  if size * elementSize ≤ vectorLimit then .ok (.elements (List.replicate size .null))
  else .error .overflow

/-- What an array of the given element class stores for an object. -/
def arrayElement (v : Vault) (element : ClassRef) : Option ObjectRef → Except Failure Value
  | none => .ok .null
  | some r => do
    let ref ← v.objectClass r
    if v.isAssignable ref element then
      if (← v.classOf element).typeCode.isPrimitive then v.unbox r else return .object r
    else .error (.fault (.cannotStore (v.className ref) (v.className element)))

end Vault

namespace Run

/-- Allocates an array of `size` empty elements. -/
def newArray (element : ClassRef) (size : Nat) : Run ObjectRef := do
  let token := (← ask (·.classOf element)).token
  let array := CoreType.array.ref
  let storage ← ask (·.fieldOffset array CoreType.valueField)
  let block ← ask (·.fieldOffset array CoreType.blockField)
  let length ← ask (·.fieldOffset array CoreType.sizeField)
  let rank ← ask (·.fieldOffset array CoreType.rankField)
  let type ← ask (·.fieldOffset array CoreType.classField)
  let r ← allocateSized array size
  setSlot r storage (← ask fun _ => Vault.emptyElements size)
  setSlot r block (.u64 slotSize)
  setSlot r length (.u64 (UInt64.ofNat size))
  setSlot r rank (.u64 1)
  setSlot r type (.token token)
  return r

/-- Reads an element. A scalar comes back in a new box of the element class. -/
def arrayGet (r : ObjectRef) (index : Int) : Run (Option ObjectRef) := do
  let place ← ask (·.arrayIndex r index)
  let items ← ask (·.arrayElements r)
  match items[place]?.getD .null with
  | .null => return none
  | .object element => return some element
  | scalar =>
    let element ← ask (·.arrayClass r)
    let offset ← ask (·.fieldOffset element CoreType.valueField)
    let boxed ← allocate element
    setSlot boxed offset scalar
    return some boxed

/-- Writes an element, which must be of the element class or descend from it. -/
def arraySet (r : ObjectRef) (index : Int) (value : Option ObjectRef) : Run Unit := do
  let place ← ask (·.arrayIndex r index)
  let element ← ask (·.arrayClass r)
  let stored ← ask (·.arrayElement element value)
  let offset ← ask (·.fieldOffset CoreType.array.ref CoreType.valueField)
  match ((← get).heap.get? r).bind (·.slot? offset) with
  | none => throw (.fault (.notAlive r))
  | some (.elements items) =>
    if place < items.length then setSlot r offset (.elements (items.set place stored))
    else fatal .arrayStorageShort
  | some other => fatal (.arrayStorage other)

end Run

end VaultKernel
