import VaultKernel.Heap.Collect
import VaultKernel.Value

/-!
# Objects

An object is its class and a slot for every name of the layout of the class.
-/

namespace VaultKernel

/-- An object on the heap. -/
structure Object where
  type : ClassRef
  slots : Array Value

namespace Object

/-- An object with `n` empty slots. -/
def blank (type : ClassRef) (n : Nat) : Object := ⟨type, Array.replicate n .null⟩

/-- The content of a slot. -/
def slot? (o : Object) (offset : Nat) : Option Value := o.slots[offset]?

/-- Changes the content of a slot. -/
def setSlot (o : Object) (offset : Nat) (value : Value) : Object :=
  { o with slots := o.slots.setIfInBounds offset value }

end Object

instance : Traceable Object where
  handles o := Value.handlesOfAll o.slots.toList

end VaultKernel
