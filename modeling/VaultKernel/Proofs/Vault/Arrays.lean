import VaultKernel.Proofs.Vault.Allocation
import VaultKernel.Proofs.Vault.Tokens

/-!
# Arrays in a vault

An array is one object: its elements, the bytes per element, their number, the rank and the token of
the element class (`arrayObject`). A new one has nothing but empty elements (`newArray_cases`); if
its bytes are no word or its elements are too many for a vector, the process stops instead. While a
vault holds an array, the element class is found by its token, every index within bounds is a place
among the elements, and a write changes the element at one place (`HoldsArray.arraySet`).
-/

namespace VaultKernel

open Heap

namespace Vault

variable {v w : Vault} {r a : ObjectRef} {type element : ClassRef} {c : Class} {name : String}
  {items : List Value} {n : UInt64} {i : Nat} {index : Int}

/-! ## New arrays -/

/-- An array whose element class has the given token. -/
def arrayObject (items : List Value) (n : UInt64) (token : Token) : Object where
  type := CoreType.array.ref
  slots := #[.elements items, .u64 slotSize, .u64 n, .u64 1, .token token]

/-- The bytes of the slots of an array and of its elements, as far as a word goes. -/
def arrayCharge (n : UInt64) : UInt64 := UInt64.ofNat (8 * (5 + n.toNat))

/-- The charge for an array that fits into a word is not cut off. -/
theorem toNat_arrayCharge (hfits : 8 * (5 + n.toNat) < 18446744073709551616) :
    (arrayCharge n).toNat = 8 * (5 + n.toNat) :=
  UInt64.toNat_ofNat_of_lt' hfits

/-- The slots of a predefined class are at the places that its table lists. -/
theorem Reachable.fieldOffset_core (hv : v.Reachable) (t : CoreType)
    (hoffset : Layout.offset? ⟨t.slotNames⟩ name = some i) : v.fieldOffset t.ref name = .ok i := by
  obtain ⟨c, hc, _, _, hl⟩ := hv.core_class t
  exact fieldOffset_eq_ok.2 ⟨c, _, hc, hl, hoffset⟩

/-- A new array is an instance of the array class with empty elements, the number of which is told
by its slots. -/
theorem newArray_eq (hv : v.Reachable) (hc : v.class? element = some c) (n : UInt64) :
    Run.newArray element n.toNat v = (do
      let r ← Run.allocateSized CoreType.array.ref n.toNat
      Run.setSlot r 0 (← Run.ask fun _ => emptyElements n.toNat)
      Run.setSlot r 1 (.u64 slotSize)
      Run.setSlot r 2 (.u64 n)
      Run.setSlot r 3 (.u64 1)
      Run.setSlot r 4 (.token c.token)
      return r : Run ObjectRef) v := by
  unfold Run.newArray
  rw [ask_bind (classOf_eq_ok.2 hc), ask_bind (hv.fieldOffset_core .array (i := 0) (by decide)),
    ask_bind (hv.fieldOffset_core .array (i := 1) (by decide)),
    ask_bind (hv.fieldOffset_core .array (i := 2) (by decide)),
    ask_bind (hv.fieldOffset_core .array (i := 3) (by decide)),
    ask_bind (hv.fieldOffset_core .array (i := 4) (by decide)), UInt64.ofNat_toNat]

/-- The bytes of an array that are no word stop the process before anything happens. -/
theorem newArray_overflow (hv : v.Reachable) (hopen : v.disposed = none)
    (hc : v.class? element = some c) (hbytes : 18446744073709551616 ≤ 8 * (5 + n.toNat)) :
    Run.newArray element n.toNat v = .error .overflow v := by
  obtain ⟨d, hd, _, hcompleted, hl⟩ := hv.core_class .array
  have hbytes' : 18446744073709551616 ≤
      (Layout.size ⟨CoreType.slotNames .array⟩ + n.toNat) * slotSize.toNat := by
    rw [Nat.mul_comm]
    exact hbytes
  rw [newArray_eq hv hc]
  exact bind_of_eq_error (allocateSized_overflow hopen hd hcompleted hl hbytes')

/-- If its bytes are a word, an array is made as long as they are granted and a vector has room for
the elements. -/
theorem newArray_cases (hv : v.Reachable) (hopen : v.disposed = none)
    (hc : v.class? element = some c) (hfits : 8 * (5 + n.toNat) < 18446744073709551616) :
    (∃ a w, Run.newArray element n.toNat v = .ok a w ∧ n.toNat * elementSize ≤ vectorLimit ∧
        v.Allocates (arrayObject (List.replicate n.toNat .null) n c.token) (arrayCharge n) a w) ∨
      (∃ o a w, v.Allocates o (arrayCharge n) a w ∧ vectorLimit < n.toNat * elementSize ∧
        Run.newArray element n.toNat v = .error .overflow w) ∨
      ∃ e, v.Declines (arrayCharge n) e ∧ Run.newArray element n.toNat v = .error e v.relieved := by
  obtain ⟨d, hd, _, hcompleted, hl⟩ := hv.core_class .array
  have hsize : (arrayCharge n).toNat =
      (Layout.size ⟨CoreType.slotNames .array⟩ + n.toNat) * slotSize.toNat := by
    rw [toNat_arrayCharge hfits, Nat.mul_comm]
    rfl
  rw [newArray_eq hv hc]
  rcases allocateSized_cases hv.orderly hopen hd hcompleted hl hsize with
    ⟨a, w, hrun, halloc⟩ | ⟨e, hdeclined, hrun⟩
  · by_cases hroom : n.toNat * elementSize ≤ vectorLimit
    · have hempty : emptyElements n.toNat = .ok (.elements (List.replicate n.toNat .null)) :=
        if_pos hroom
      obtain ⟨hvalue, halloc, hsize⟩ := halloc.setSlot (k := 5) rfl 0 (by decide)
        (.elements (List.replicate n.toNat .null))
      obtain ⟨hblock, halloc, hsize⟩ := halloc.setSlot hsize 1 (by decide) (.u64 slotSize)
      obtain ⟨hlength, halloc, hsize⟩ := halloc.setSlot hsize 2 (by decide) (.u64 n)
      obtain ⟨hrank, halloc, hsize⟩ := halloc.setSlot hsize 3 (by decide) (.u64 1)
      obtain ⟨htoken, halloc, _⟩ := halloc.setSlot hsize 4 (by decide) (.token c.token)
      refine Or.inl ⟨a, _, ?_, hroom, halloc⟩
      refine bind_of_eq_ok hrun ?_
      rw [ask_bind hempty]
      exact bind_of_eq_ok hvalue (bind_of_eq_ok hblock (bind_of_eq_ok hlength
        (bind_of_eq_ok hrank (bind_of_eq_ok htoken rfl))))
    · have hempty : emptyElements n.toNat = .error .overflow := if_neg hroom
      refine Or.inr (Or.inl ⟨_, a, w, halloc, Nat.lt_of_not_le hroom, ?_⟩)
      refine bind_of_eq_ok hrun (bind_of_eq_error (x := Run.ask _) ?_)
      simp only [Run.ask, hempty]
  · exact Or.inr (Or.inr ⟨e, hdeclined, bind_of_eq_error hrun⟩)

/-- An array that was made is charged the bytes of its slots and elements. -/
theorem newArray_eq_ok (hv : v.Reachable) (hopen : v.disposed = none)
    (hc : v.class? element = some c) (h : Run.newArray element n.toNat v = .ok a w) :
    8 * (5 + n.toNat) < 18446744073709551616 ∧
      v.Allocates (arrayObject (List.replicate n.toNat .null) n c.token) (arrayCharge n) a w := by
  by_cases hfits : 8 * (5 + n.toNat) < 18446744073709551616
  · rcases newArray_cases hv hopen hc hfits with
      ⟨a', w', hmade, _, halloc⟩ | ⟨_, _, _, _, _, hstop⟩ | ⟨_, _, hfailed⟩
    · cases h.symm.trans hmade
      exact ⟨hfits, halloc⟩
    · cases h.symm.trans hstop
    · cases h.symm.trans hfailed
  · cases h.symm.trans (newArray_overflow hv hopen hc (Nat.le_of_not_lt hfits))

/-- A new object with a value in its only slot is a box of the value. -/
theorem Allocates.unbox {value : Value} {size : UInt64}
    (h : v.Allocates ⟨type, #[value]⟩ size r w)
    (hoffset : v.fieldOffset type CoreType.valueField = .ok 0) : w.unbox r = .ok value := by
  have hoffset' : w.fieldOffset type CoreType.valueField = .ok 0 := by
    rw [h.rest]
    exact hoffset
  refine bind_eq_ok.2 ⟨type, objectClass_eq_ok h.get?, ?_⟩
  simp only [hoffset']
  exact slot_eq_ok h.get? rfl

/-! ## Questions to an array -/

/-- An array of an element class with these elements is in a vault. -/
structure HoldsArray (v : Vault) (a : ObjectRef) (element : ClassRef) (c : Class) (n : UInt64)
    (items : List Value) : Prop where
  reachable : v.Reachable
  type : v.class? element = some c
  object : v.heap.get? a = some (arrayObject items n c.token)
  length : items.length = n.toNat

namespace HoldsArray

/-- A field of an array is the slot at its offset. -/
theorem getField (h : v.HoldsArray a element c n items)
    (hoffset : Layout.offset? ⟨CoreType.slotNames .array⟩ name = some i) {value : Value}
    (hvalue : (arrayObject items n c.token).slots[i]? = some value) :
    v.getField a name = .ok value :=
  (getField_eq h.object (h.reachable.fieldOffset_core .array hoffset)).trans
    (slot_eq_ok h.object hvalue)

/-- What holds an array is one. -/
theorem ensureArray (h : v.HoldsArray a element c n items) : v.ensureArray a = .ok () := by
  rw [Vault.ensureArray, objectClass_eq_ok h.object]
  rfl

/-- The length of an array is read from the array. -/
theorem arrayLength (h : v.HoldsArray a element c n items) : v.arrayLength a = .ok n.toNat := by
  rw [Vault.arrayLength, arrayNumber, h.ensureArray, h.getField (i := 2) (by decide) rfl]
  rfl

/-- The elements of an array are read from the array. -/
theorem arrayElements (h : v.HoldsArray a element c n items) : v.arrayElements a = .ok items := by
  rw [Vault.arrayElements, h.getField (i := 0) (by decide) rfl]
  rfl

/-- The token leads back to the element class. -/
theorem arrayClass (h : v.HoldsArray a element c n items) : v.arrayClass a = .ok element := by
  obtain ⟨past, hchronicle⟩ := h.reachable.chronicle
  have hfound : v.findToken? c.token = some element :=
    hchronicle.coherent.findToken?_eq_some_iff.2 ⟨c, h.type, rfl⟩
  have htoken : v.getField a CoreType.classField = .ok (.token c.token) :=
    h.getField (i := 4) (by decide) rfl
  refine bind_eq_ok.2 ⟨(), h.ensureArray, bind_eq_ok.2 ⟨.token c.token, htoken, ?_⟩⟩
  simp only [hfound]
  rfl

/-- An index is accepted from zero to the length. -/
theorem arrayIndex (h : v.HoldsArray a element c n items) (index : Int) : v.arrayIndex a index =
    if 0 ≤ index ∧ index < n.toNat then .ok index.toNat
    else .error (.fault (.indexOutOfRange index n.toNat)) := by
  rw [Vault.arrayIndex, h.arrayLength]
  rfl

end HoldsArray

/-! ## Writes -/

namespace HoldsArray

/-- The result of a write: what is stored takes its place among the elements. -/
theorem arraySet (h : v.HoldsArray a element c n items) (index : Int) (value : Option ObjectRef) :
    Run.arraySet a index value v =
      if 0 ≤ index ∧ index < n.toNat then
        match v.arrayElement element value with
        | .ok stored => .ok () (v.written a 0 (.elements (items.set index.toNat stored)))
        | .error e => .error e v
      else .error (.fault (.indexOutOfRange index n.toNat)) v := by
  have hplace := h.arrayIndex index
  unfold Run.arraySet
  split
  · next hin =>
      rw [if_pos hin] at hplace
      rw [ask_bind hplace, ask_bind h.arrayClass]
      cases hstored : v.arrayElement element value with
      | error e =>
          refine bind_of_eq_error (x := Run.ask _) ?_
          simp only [Run.ask, hstored]
      | ok stored =>
          have hlt : index.toNat < items.length := by rw [h.length]; omega
          rw [ask_bind hstored, ask_bind (h.reachable.fieldOffset_core .array (i := 0) (by decide)),
            get_bind, h.object]
          show (if _ then _ else _ : Run Unit) v = _
          rw [if_pos hlt]
          exact setSlot_eq_ok h.object (by decide : 0 < 5) _
  · next hout =>
      rw [if_neg hout] at hplace
      refine bind_of_eq_error (x := Run.ask _) ?_
      simp only [Run.ask, hplace]

/-- After a write there is an array with one more element changed. -/
theorem written (h : v.HoldsArray a element c n items) (place : Nat) (stored : Value)
    (hreachable : (v.written a 0 (.elements (items.set place stored))).Reachable) :
    (v.written a 0 (.elements (items.set place stored))).HoldsArray a element c n
      (items.set place stored) :=
  ⟨hreachable, h.type, get?_written_self h.object 0 _, (List.length_set).trans h.length⟩

end HoldsArray

end Vault

end VaultKernel
