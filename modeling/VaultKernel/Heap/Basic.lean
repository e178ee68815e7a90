import VaultKernel.Handle

/-!
# The collected heap

Values live in slots. Occupied slots form a doubly linked list in allocation order from `head` to
`tail`, through the headers of their entries; empty slots form a list from `freeHead`, the one
vacated last in front. An allocation takes the first empty slot, or a new one if there is none.
Payload bytes are counted in words of 64 bits. An allocation that would take the living bytes above
the limit is refused and changes nothing; one after which a counter does not fit in its word stops
the process.
-/

namespace VaultKernel

/-- How far the current collection has come with an object. -/
inductive Mark where
  /-- Not seen. -/
  | white
  /-- Seen, but not what it refers to. -/
  | gray
  /-- Seen with what it refers to. -/
  | black
  deriving DecidableEq, Repr

/-- The name of a mark in listings. -/
def Mark.text : Mark → String
  | .white => "White"
  | .gray => "Gray"
  | .black => "Black"

/-- The limits of a heap. -/
structure HeapLimits where
  /-- The greatest number of living payload bytes. -/
  maxBytes : UInt64 := 268435456
  /-- The number of living payload bytes above which a collection is due. -/
  threshold : UInt64 := 1048576
  /-- Whether objects that outlive their vault are an error. -/
  checkLeaks : Bool := false
  deriving DecidableEq, Repr

/-- The counters of a heap. -/
structure HeapStats where
  aliveObjects : Nat := 0
  aliveBytes : UInt64 := 0
  allocations : Nat := 0
  frees : Nat := 0
  bytesRequested : UInt64 := 0
  collections : Nat := 0
  /-- Objects that the last collection removed. -/
  lastReclaimed : Nat := 0
  deriving DecidableEq, Repr

/-- Why a heap operation failed. -/
inductive HeapError where
  | outOfMemory (requested alive limit : UInt64)
  | staleHandle (handle : ObjectRef)
  | leakDetected (alive expected : Nat)
  /-- A counter would not fit in 64 bits. No caller sees this: the process stops here. -/
  | overflow
  deriving DecidableEq, Repr

/-- The name of the kind of a heap error. -/
def HeapError.name : HeapError → String
  | .outOfMemory _ _ _ => "OutOfMemory"
  | .staleHandle _ => "StaleHandle"
  | .leakDetected _ _ => "LeakDetected"
  | .overflow => "Overflow"

/-- The wording of a heap error. -/
def HeapError.message : HeapError → String
  | .outOfMemory requested alive limit =>
    "Out of memory: requested " ++ Text.natural requested.toNat ++ " bytes with "
      ++ Text.natural alive.toNat ++ " alive (limit " ++ Text.natural limit.toNat ++ ")"
  | .staleHandle handle => "Stale object handle " ++ handle.objectText
  | .leakDetected alive expected =>
    "Memory leak detected: " ++ Text.natural alive ++ " objects alive, expected "
      ++ Text.natural expected
  | .overflow => "A counter of the heap does not fit in its word"

/-- Values that know which objects they refer to. -/
class Traceable (α : Type) where
  /-- The handles that a value keeps alive, in the order in which they are visited. -/
  handles : α → List ObjectRef

/-- What the heap knows about an entry. -/
structure HeapHeader where
  mark : Mark := .white
  /-- An immortal object is never collected and keeps alive what it refers to. -/
  immortal : Bool
  /-- Payload bytes. -/
  size : UInt64
  /-- The slot before this one in allocation order. -/
  prev : Option Nat := none
  /-- The slot after this one in allocation order. -/
  next : Option Nat := none
  deriving DecidableEq, Repr

/-- A value with its header. -/
structure HeapEntry (α : Type) where
  header : HeapHeader
  value : α

/-- A place for an entry. -/
structure HeapSlot (α : Type) where
  generation : UInt32 := 0
  entry : Option (HeapEntry α) := none
  /-- The next empty slot. -/
  nextFree : Option Nat := none

/-- A heap of values. -/
structure Heap (α : Type) where
  limits : HeapLimits := {}
  slots : Array (HeapSlot α) := #[]
  freeHead : Option Nat := none
  head : Option Nat := none
  tail : Option Nat := none
  stats : HeapStats := {}

namespace Heap

variable {α : Type}

/-- A heap without objects. -/
def empty (limits : HeapLimits) : Heap α := { limits }

/-! ## Look-up -/

/-- The entry in a slot. -/
def entryAt? (h : Heap α) (index : Nat) : Option (HeapEntry α) := do (← h.slots[index]?).entry

/-- The entry behind a handle. -/
def entry? (h : Heap α) (r : ObjectRef) : Option (HeapEntry α) := do
  let slot ← h.slots[r.index]?
  if slot.generation = r.generation then slot.entry else none

/-- The value behind a handle. -/
def get? (h : Heap α) (r : ObjectRef) : Option α := (h.entry? r).map (·.value)

/-- The header behind a handle. -/
def header? (h : Heap α) (r : ObjectRef) : Option HeapHeader := (h.entry? r).map (·.header)

/-- Whether a handle refers to a living object. -/
def contains (h : Heap α) (r : ObjectRef) : Bool := (h.entry? r).isSome

/-! ## Update -/

/-- Changes the entry in a slot. -/
def modifyAt (h : Heap α) (index : Nat) (f : HeapEntry α → HeapEntry α) : Heap α :=
  { h with slots := h.slots.modify index fun s => { s with entry := s.entry.map f } }

/-- Changes the header in a slot. -/
def modifyHeader (h : Heap α) (index : Nat) (f : HeapHeader → HeapHeader) : Heap α :=
  h.modifyAt index fun e => { e with header := f e.header }

/-- Changes the value behind a handle; a handle that refers to nothing changes nothing. -/
def modify (h : Heap α) (r : ObjectRef) (f : α → α) : Heap α :=
  if h.contains r then h.modifyAt r.index fun e => { e with value := f e.value } else h

/-- Colours the object behind a handle. -/
def setMark (h : Heap α) (r : ObjectRef) (mark : Mark) : Heap α :=
  if h.contains r then h.modifyHeader r.index fun x => { x with mark } else h

/-! ## Allocation -/

/-- Whether `size` more bytes stay within the limit; a sum beyond 64 bits counts as the greatest
word. -/
def hasRoom (h : Heap α) (size : UInt64) : Bool :=
  min (h.stats.aliveBytes.toNat + size.toNat) 18446744073709551615 ≤ h.limits.maxBytes.toNat

/-- The first empty slot, or a new one, taken out of the list of empty slots; there are no more
slots than words of 32 bits. -/
def takeSlot? (h : Heap α) : Option (Nat × Heap α) :=
  match h.freeHead with
  | some index =>
    let following := h.slots[index]?.bind (·.nextFree)
    some (index,
      { h with
        freeHead := following
        slots := h.slots.modify index fun s => { s with nextFree := none } })
  | none =>
    if h.slots.size < 4294967296 then some (h.slots.size, { h with slots := h.slots.push {} })
    else none

/-- Puts an entry into an empty slot and at the end of the list. -/
def link (h : Heap α) (index : Nat) (value : α) (size : UInt64) (immortal : Bool) : Heap α :=
  let h := match h.tail with
    | some last => h.modifyHeader last fun x => { x with next := some index }
    | none => { h with head := some index }
  let header : HeapHeader := { immortal, size, prev := h.tail }
  { h with
    tail := some index
    slots := h.slots.modify index fun s => { s with entry := some ⟨header, value⟩ } }

/-- Whether the byte counters still fit in their words with `size` more bytes. -/
def canCount (h : Heap α) (size : UInt64) : Bool :=
  h.stats.aliveBytes.toNat + size.toNat < 18446744073709551616 ∧
    h.stats.bytesRequested.toNat + size.toNat < 18446744073709551616

/-- Counts an allocation. -/
def countAllocation (h : Heap α) (size : UInt64) : Heap α :=
  { h with stats := { h.stats with
      aliveObjects := h.stats.aliveObjects + 1
      aliveBytes := h.stats.aliveBytes + size
      allocations := h.stats.allocations + 1
      bytesRequested := h.stats.bytesRequested + size } }

/-- The error of an allocation of `size` bytes. -/
def refusal (h : Heap α) (size : UInt64) : HeapError :=
  .outOfMemory size h.stats.aliveBytes h.limits.maxBytes

/-- The outcome of an operation on a heap, with the heap that it leaves behind. -/
abbrev Outcome (α β : Type) := EStateM.Result HeapError (Heap α) β

/-- Stores a value with a payload of `size` bytes. -/
def insert (h : Heap α) (value : α) (size : UInt64) (immortal : Bool) : Outcome α ObjectRef :=
  if h.hasRoom size then
    match h.takeSlot? with
    | some (index, taken) =>
      if h.canCount size then
        let generation := (taken.slots[index]?.map (·.generation)).getD 0
        .ok ⟨index, generation⟩ ((taken.link index value size immortal).countAllocation size)
      else .error .overflow h
    | none => .error (h.refusal size) h
  else .error (h.refusal size) h

/-- Stores a value that collections may remove. -/
def allocate (h : Heap α) (value : α) (size : UInt64) : Outcome α ObjectRef :=
  h.insert value size false

/-- Stores a value that no collection removes. -/
def allocateImmortal (h : Heap α) (value : α) (size : UInt64) : Outcome α ObjectRef :=
  h.insert value size true

/-! ## Removal -/

/-- Empties a slot, moves its generation on and puts it in front of the empty slots. -/
def vacate (h : Heap α) (index : Nat) : Heap α :=
  { h with
    freeHead := some index
    slots := h.slots.modify index fun s =>
      { generation := s.generation + 1, entry := none, nextFree := h.freeHead } }

/-- Joins the neighbours of a removed entry. -/
def unlink (h : Heap α) (prev next : Option Nat) : Heap α :=
  let h := match prev with
    | some p => h.modifyHeader p fun x => { x with next }
    | none => { h with head := next }
  match next with
  | some n => h.modifyHeader n fun x => { x with prev }
  | none => { h with tail := prev }

/-- Counts a removal. -/
def countFree (h : Heap α) (size : UInt64) : Heap α :=
  { h with stats := { h.stats with
      aliveObjects := h.stats.aliveObjects - 1
      aliveBytes := h.stats.aliveBytes - size
      frees := h.stats.frees + 1 } }

/-- Removes the entry in a slot. -/
def remove (h : Heap α) (index : Nat) : Heap α :=
  match h.entryAt? index with
  | some e => ((h.vacate index).unlink e.header.prev e.header.next).countFree e.header.size
  | none => h

/-- Removes one object, immortal or not. -/
def free (h : Heap α) (r : ObjectRef) : Outcome α α :=
  match h.get? r with
  | some value => .ok value (h.remove r.index)
  | none => .error (.staleHandle r) h

/-! ## The list of living objects -/

/-- The slots from `cursor` on, in allocation order, at most `fuel` of them. -/
def slotsFrom (h : Heap α) : (fuel : Nat) → (cursor : Option Nat) → List Nat
  | 0, _ => []
  | _ + 1, none => []
  | fuel + 1, some index =>
    match h.entryAt? index with
    | some e => index :: h.slotsFrom fuel e.header.next
    | none => []

/-- The occupied slots in allocation order; the list is never longer than the slots. -/
def occupied (h : Heap α) : List Nat := h.slotsFrom h.slots.size h.head

/-- The handle of what is in a slot. -/
def handleAt (h : Heap α) (index : Nat) : ObjectRef :=
  ⟨index, (h.slots[index]?.map (·.generation)).getD 0⟩

/-- The living objects in allocation order. -/
def handles (h : Heap α) : List ObjectRef := h.occupied.map h.handleAt

/-- The living objects that are not immortal, in allocation order. -/
def mortals (h : Heap α) : List (ObjectRef × α) :=
  h.handles.filterMap fun r => do
    let e ← h.entry? r
    if e.header.immortal then none else some (r, e.value)

/-- Removes the objects that are not immortal and whose value satisfies `p`; the count of them comes
first. -/
def freeWhere (h : Heap α) (p : α → Bool) : Nat × Heap α :=
  let doomed := h.mortals.filter fun (_, value) => p value
  (doomed.length, doomed.foldl (fun h (r, _) => h.remove r.index) h)

/-- Removes every object that is not immortal. -/
def freeMortals (h : Heap α) : Nat × Heap α := h.freeWhere fun _ => true

/-- Whether a collection is due before the next allocation. -/
def isCollectionDue (h : Heap α) : Bool := h.limits.threshold < h.stats.aliveBytes

/-- Checks that exactly `expected` objects are alive. -/
def checkAlive (h : Heap α) (expected : Nat) : Except HeapError Unit :=
  if h.stats.aliveObjects = expected then .ok ()
  else .error (.leakDetected h.stats.aliveObjects expected)

end Heap

end VaultKernel
