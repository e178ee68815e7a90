import VaultKernel.Proofs.Class.Layouts
import VaultKernel.Proofs.Vault.Reachable

/-!
# Fields of objects

An object that a collection may remove fits its class, whatever was loaded, disposed or collected
since it was stored: the invariant of the heap says so (`Orderly`). Hence each of its fields can be
read and written, and a write changes one slot of one object. The main statement is `mortal_fields`.
-/

namespace VaultKernel.Vault

open Heap

variable {v v' : Vault} {r q : ObjectRef} {o : Object} {type : ClassRef} {name : String}
  {value : Value} {i : Nat}

/-- A write to a field is read back, and no other slot of any object changes. -/
structure FieldSet (v : Vault) (r : ObjectRef) (name : String) (value : Value) (v' : Vault) :
    Prop where
  reads : v'.getField r name = .ok value
  slots : ∃ type offset, v.objectClass r = .ok type ∧ v.fieldOffset type name = .ok offset ∧
    ∀ i, i ≠ offset → v'.slot r i = v.slot r i
  fields : ∀ name', name' ≠ name → v'.getField r name' = v.getField r name'
  others : ∀ q, q ≠ r → v'.heap.get? q = v.heap.get? q
  rest : v' = { v with heap := v'.heap }

/-! ## Slots of fields -/

/-- A field has a place in a class if the layout names it. -/
theorem fieldOffset_eq_ok : v.fieldOffset type name = .ok i ↔
    ∃ c l, v.class? type = some c ∧ c.layout = some l ∧ l.offset? name = some i := by
  constructor
  · intro h
    obtain ⟨c, hc, hrest⟩ := bind_eq_ok.1 h
    split at hrest
    · cases hrest
    · next l hl =>
        split at hrest
        · next offset hoffset =>
            cases hrest
            exact ⟨c, l, classOf_eq_ok.1 hc, hl, hoffset⟩
        · cases hrest
  · rintro ⟨c, l, hc, hl, hoffset⟩
    refine bind_eq_ok.2 ⟨c, classOf_eq_ok.2 hc, ?_⟩
    simp only [hl, hoffset]

/-- Two fields of a class do not share a slot. -/
theorem eq_of_fieldOffset {name' : String} (h : v.fieldOffset type name = .ok i)
    (h' : v.fieldOffset type name' = .ok i) : name = name' := by
  obtain ⟨c, l, hc, hl, hoffset⟩ := fieldOffset_eq_ok.1 h
  obtain ⟨c', l', hc', hl', hoffset'⟩ := fieldOffset_eq_ok.1 h'
  cases hc.symm.trans hc'
  cases hl.symm.trans hl'
  exact Layout.eq_of_offset? hoffset hoffset'

/-- The class of a living object is the one it was stored with. -/
theorem objectClass_eq_ok (ho : v.heap.get? r = some o) : v.objectClass r = .ok o.type := by
  simp only [objectClass, ho]

/-- A slot of a living object has the value that is in it. -/
theorem slot_eq_ok (ho : v.heap.get? r = some o) (hvalue : o.slots[i]? = some value) :
    v.slot r i = .ok value := by
  simp only [slot, ho, Object.slot?, hvalue]

/-- Reading a field looks up its place and reads the slot there. -/
theorem getField_eq_bind (ho : v.heap.get? r = some o) (name : String) :
    v.getField r name = v.fieldOffset o.type name >>= v.slot r := by
  rw [getField, objectClass_eq_ok ho]
  rfl

/-- A field is read from its slot. -/
theorem getField_eq (ho : v.heap.get? r = some o) (hoffset : v.fieldOffset o.type name = .ok i) :
    v.getField r name = v.slot r i := by
  rw [getField_eq_bind ho, hoffset]
  rfl

/-! ## Writing a slot -/

/-- The vault after a slot was written. -/
def written (v : Vault) (r : ObjectRef) (offset : Nat) (value : Value) : Vault :=
  { v with heap := v.heap.modify r fun o => o.setSlot offset value }

/-- A slot that is there can be written. -/
theorem setSlot_eq_ok (ho : v.heap.get? r = some o) (hi : i < o.slots.size) (value : Value) :
    Run.setSlot r i value v = .ok () (v.written r i value) := by
  unfold Run.setSlot
  rw [ask_bind (slot_eq_ok ho (Array.getElem?_eq_getElem hi))]
  rfl

/-- A field whose slot is there can be written. -/
theorem setField_eq_ok (ho : v.heap.get? r = some o)
    (hoffset : v.fieldOffset o.type name = .ok i) (hi : i < o.slots.size) (value : Value) :
    Run.setField r name value v = .ok () (v.written r i value) := by
  have hplace : (do v.fieldOffset (← v.objectClass r) name) = .ok i := by
    rw [objectClass_eq_ok ho]
    exact hoffset
  unfold Run.setField
  rw [ask_bind hplace]
  exact setSlot_eq_ok ho hi value

/-- The object has the new value in its slot. -/
theorem get?_written_self (ho : v.heap.get? r = some o) (offset : Nat) (value : Value) :
    (v.written r offset value).heap.get? r = some (o.setSlot offset value) := by
  rw [written, get?_modify, if_pos rfl, ho]
  rfl

/-- Another object is as it was. -/
theorem get?_written_of_ne (hq : q ≠ r) (offset : Nat) (value : Value) :
    (v.written r offset value).heap.get? q = v.heap.get? q := by
  rw [written, get?_modify, if_neg hq]

/-- The other slots of the object are as they were. -/
theorem slot_written_of_ne (ho : v.heap.get? r = some o) {offset : Nat} (hi : i ≠ offset)
    (value : Value) : (v.written r offset value).slot r i = v.slot r i := by
  have hsame : (o.setSlot offset value).slot? i = o.slot? i := by
    simp [Object.slot?, Object.setSlot, hi.symm]
  simp only [slot, ho, get?_written_self ho, hsame]

/-- A write to a slot of a field changes what that field holds. -/
theorem fieldSet_written (ho : v.heap.get? r = some o)
    (hoffset : v.fieldOffset o.type name = .ok i) (hi : i < o.slots.size) (value : Value) :
    v.FieldSet r name value (v.written r i value) := by
  have hself := get?_written_self ho i value
  refine ⟨?_, ⟨o.type, i, objectClass_eq_ok ho, hoffset,
      fun j hj => slot_written_of_ne ho hj value⟩, fun name' hname => ?_,
    fun q hq => get?_written_of_ne hq i value, rfl⟩
  · rw [getField_eq hself hoffset]
    refine slot_eq_ok hself ?_
    simp [Object.setSlot, hi]
  · cases hoffset' : v.fieldOffset o.type name' with
    | error e =>
        rw [getField_eq_bind hself, getField_eq_bind ho]
        show v.fieldOffset o.type name' >>= _ = _
        rw [hoffset']
        rfl
    | ok j =>
        have hj : j ≠ i := fun heq => hname (eq_of_fieldOffset hoffset' (heq ▸ hoffset))
        rw [getField_eq hself hoffset', getField_eq ho hoffset', slot_written_of_ne ho hj]

/-! ## Objects of reachable vaults -/

/-- An object that a collection may remove has a live and complete class and as many slots as its
layout; each field can be read and written, and a write changes nothing else. -/
theorem mortal_fields (hv : v.Reachable) {e : HeapEntry Object} (he : v.heap.entry? r = some e)
    (hmortal : e.header.immortal = false) :
    ∃ c l, v.class? e.value.type = some c ∧ c.isCompleted ∧ c.layout = some l ∧
      e.value.slots.size = l.size ∧
      ∀ name, (l.offset? name).isSome →
        (∃ value, v.getField r name = .ok value) ∧
        ∀ value, ∃ v', Run.setField r name value v = .ok () v' ∧ v.FieldSet r name value v' := by
  have hbare : v.heap.bare? r = some e.bare := by rw [bare?, he, Option.map_some]
  have ho : v.heap.get? r = some e.value := by rw [get?, he, Option.map_some]
  obtain ⟨c, l, hc, hcompleted, hl, hsize⟩ := hv.orderly.typed r e.bare hbare hmortal
  refine ⟨c, l, hc, hcompleted, hl, hsize, fun name hname => ?_⟩
  obtain ⟨i, hi⟩ := Option.isSome_iff_exists.1 hname
  have hoffset := fieldOffset_eq_ok.2 ⟨c, l, hc, hl, hi⟩
  have hlt : i < e.value.slots.size := lt_of_lt_of_eq (Layout.lt_size_of_offset? hi) hsize.symm
  refine ⟨⟨_, (getField_eq ho hoffset).trans (slot_eq_ok ho (Array.getElem?_eq_getElem hlt))⟩,
    fun value => ⟨_, setField_eq_ok ho hoffset hlt value, fieldSet_written ho hoffset hlt value⟩⟩

/-- An exception in a slot that was used before has the field of the class above its own. -/
theorem mortal_fields_inherited : ∃ (v v' : Vault) (e : HeapEntry Object), v.Reachable ∧
    v.heap.entry? ⟨1, 1⟩ = some e ∧ e.header.immortal = false ∧
    e.value.type = CoreType.nullPointerException.ref ∧
    Run.setField ⟨1, 1⟩ CoreType.messageField (.string "null") v = .ok () v' ∧
    v.FieldSet ⟨1, 1⟩ CoreType.messageField (.string "null") v' := by
  have hrun : (create { heap := { threshold := 0 } } {}).toOption.any fun v₀ =>
      let allocated := (Operation.allocate CoreType.nullPointerException.ref).after
      (allocated (allocated v₀)).heap.entry? ⟨1, 1⟩ |>.any fun e => !e.header.immortal &&
        decide (e.value.type = CoreType.nullPointerException.ref) &&
        ((allocated (allocated v₀)).class? e.value.type).any fun c =>
          c.layout.any fun l => (l.offset? CoreType.messageField).isSome := by
    decide +kernel
  obtain ⟨v₀, hcreated, hrun⟩ := (Option.any_eq_true _ _).1 hrun
  obtain ⟨e, he, hrun⟩ := (Option.any_eq_true _ _).1 hrun
  simp only [Bool.and_eq_true, Bool.not_eq_true', decide_eq_true_eq] at hrun
  obtain ⟨⟨hmortal, htype⟩, hfield⟩ := hrun
  obtain ⟨c, hc, hlayout⟩ := (Option.any_eq_true _ _).1 hfield
  obtain ⟨l, hl, hoffset⟩ := (Option.any_eq_true _ _).1 hlayout
  have hv := (Reaches.refl v₀).operate (.allocate CoreType.nullPointerException.ref)
    |>.operate (.allocate CoreType.nullPointerException.ref)
  have hreachable : Reachable _ := ⟨_, _, v₀, toOption_eq_some.1 hcreated, hv⟩
  obtain ⟨c', l', hc', _, hl', _, hfields⟩ := mortal_fields hreachable he hmortal
  cases hc.symm.trans hc'
  cases hl.symm.trans hl'
  obtain ⟨_, hwrites⟩ := hfields CoreType.messageField hoffset
  obtain ⟨v', hset, hdone⟩ := hwrites (.string "null")
  exact ⟨_, v', e, hreachable, he, hmortal, htype, hset, hdone⟩

end VaultKernel.Vault
