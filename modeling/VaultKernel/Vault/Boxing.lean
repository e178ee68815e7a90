import VaultKernel.Value.Conversion
import VaultKernel.Vault.Object

/-!
# Boxing

A scalar is boxed into an object of its predefined class, whose value slot holds it, and copied out
of that slot again.
-/

namespace VaultKernel

namespace Vault

/-- The scalar in a primitive object. -/
def unbox (v : Vault) (r : ObjectRef) : Except Failure Value := do
  let ref ← v.objectClass r
  match v.fieldOffset ref CoreType.valueField with
  | .ok offset => v.slot r offset
  | .error _ => .error (.fault (.notPrimitive (v.className ref)))

/-- The scalar in a primitive object, converted. -/
def unboxAs {α : Type} (v : Vault) (convert : Value → Except Fault α) (r : ObjectRef) :
    Except Failure α := do
  (convert (← v.unbox r)).mapError .fault

end Vault

namespace Run

/-- An object that holds a value: a new one for a scalar, and the object itself for a reference. -/
def box (value : Value) : Run ObjectRef := do
  match value with
  | .object r => return r
  | _ =>
    match CoreType.ofTypeCode? value.typeCode with
    | none => throw (.fault (.cannotBox value.typeCode))
    | some t =>
      let offset ← ask (·.fieldOffset t.ref CoreType.valueField)
      let r ← allocate t.ref
      setSlot r offset value
      return r

end Run

end VaultKernel
