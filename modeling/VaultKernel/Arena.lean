import Std.Data.TreeMap.Lemmas
import VaultKernel.Handle

/-!
# Arenas

An arena keeps entries until they are removed by hand, one by one or all entries of an owner at
once. Empty slots form a stack: the slot vacated last is used first. The entries of an owner are
listed in allocation order. Handles number the slots by words of 32 bits, and an arena with more
slots than that does not notice it.
-/

namespace VaultKernel

/-- A place for an entry and the number of its owner. -/
structure ArenaSlot (α : Type) where
  generation : UInt32 := 0
  entry : Option (Nat × α) := none

/-- A store of entries with owners. -/
structure Arena (α : Type) where
  slots : Array (ArenaSlot α) := #[]
  /-- Empty slots, the one vacated last in front. -/
  free : List Nat := []
  /-- The slots of each owner, the one allocated last in front. -/
  owners : Std.TreeMap Nat (List Nat) := {}
  /-- The number of entries. -/
  size : Nat := 0

namespace Arena

variable {α : Type}

/-- The slots of an owner in allocation order. -/
def slotsOf (a : Arena α) (owner : Nat) : List Nat := (a.owners.getD owner []).reverse

/-- The slot that the next entry takes, with the arena in which it is taken. The number of a new
slot is cut to 32 bits: behind 2 ^ 32 slots the first one comes again, whatever is in it. -/
def takeSlot (a : Arena α) : Nat × Arena α :=
  match a.free with
  | index :: free => (index, { a with free })
  | [] => ((UInt32.ofNat a.slots.size).toNat, { a with slots := a.slots.push {} })

/-- Stores an entry for an owner. -/
def allocate (a : Arena α) (owner : Nat) (value : α) : Handle × Arena α :=
  let (index, a) := a.takeSlot
  let generation := (a.slots[index]?.map (·.generation)).getD 0
  (⟨index, generation⟩,
    { a with
      slots := a.slots.modify index fun s => { s with entry := some (owner, value) }
      owners := a.owners.insert owner (index :: a.owners.getD owner [])
      size := a.size + 1 })

/-- The owner and the value behind a handle. -/
def entry? (a : Arena α) (h : Handle) : Option (Nat × α) := do
  let slot ← a.slots[h.index]?
  if slot.generation = h.generation then slot.entry else none

/-- The value behind a handle. -/
def get? (a : Arena α) (h : Handle) : Option α := (a.entry? h).map (·.2)

/-- The owner of the entry behind a handle. -/
def ownerOf? (a : Arena α) (h : Handle) : Option Nat := (a.entry? h).map (·.1)

/-- Whether a handle refers to an entry. -/
def contains (a : Arena α) (h : Handle) : Bool := (a.entry? h).isSome

/-- Changes the value behind a handle; a handle that refers to nothing changes nothing. -/
def modify (a : Arena α) (h : Handle) (f : α → α) : Arena α :=
  if a.contains h then
    { a with slots := a.slots.modify h.index fun s =>
        { s with entry := s.entry.map fun (owner, value) => (owner, f value) } }
  else a

/-- Vacates a slot and returns what was in it. -/
def release (a : Arena α) (index : Nat) : Option α × Arena α :=
  match a.slots[index]?.bind (·.entry) with
  | some (_, value) =>
    (some value,
      { a with
        slots := a.slots.modify index fun s => { generation := s.generation + 1, entry := none }
        free := index :: a.free
        size := a.size - 1 })
  | none => (none, a)

/-- Removes one entry. -/
def remove (a : Arena α) (h : Handle) : Option α × Arena α :=
  match a.ownerOf? h with
  | some owner =>
    { a with owners :=
        a.owners.insert owner ((a.owners.getD owner []).filter (· ≠ h.index)) }.release h.index
  | none => (none, a)

/-- Removes several slots in order and returns what was in them. -/
def releaseAll (a : Arena α) : List Nat → List α × Arena α
  | [] => ([], a)
  | index :: rest =>
    let (value, a) := a.release index
    let (values, a) := a.releaseAll rest
    (value.toList ++ values, a)

/-- Removes every entry of an owner and returns their values in allocation order. -/
def removeOwner (a : Arena α) (owner : Nat) : List α × Arena α :=
  { a with owners := a.owners.erase owner }.releaseAll (a.slotsOf owner)

/-- The handle of what is in a slot. -/
def handleAt (a : Arena α) (index : Nat) : Handle :=
  ⟨index, (a.slots[index]?.map (·.generation)).getD 0⟩

/-- The handles of an owner in allocation order. -/
def handlesOf (a : Arena α) (owner : Nat) : List Handle := (a.slotsOf owner).map a.handleAt

/-- The entries in slot order. -/
def toList (a : Arena α) : List (Handle × α) :=
  (List.range a.slots.size).filterMap fun index =>
    let h := a.handleAt index
    (a.get? h).map fun value => (h, value)

end Arena

end VaultKernel
