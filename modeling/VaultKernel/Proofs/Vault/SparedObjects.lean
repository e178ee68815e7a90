import VaultKernel.Proofs.Heap.Handles
import VaultKernel.Proofs.Vault.AllocatingCalls
import VaultKernel.Proofs.Vault.Corruption
import VaultKernel.Proofs.Vault.Objects
import VaultKernel.Proofs.Vault.Requests

/-!
# Operations that spare an object

A public operation spares an object of a predefined class if it does not write to it or free it, and
may collect only while the object is needed (`Operation.Spares`). Then the object is as it was after
the operation, whether that succeeded or not (`Operation.Spares.leaves`). A class stays that the
operation does not dispose with its module, and the vault is not disposed.
-/

namespace VaultKernel

open Arena Heap Vault

/-- An operation on a vault leaves an object alone and does not dispose a class. -/
def Operation.Spares (v : Vault) (a : ObjectRef) (type : ClassRef) : Operation → Prop
  | .allocateImmortal _ | .pushFrame _ _ | .popFrame _ | .changeFrame _ _ | .useRegistry _ => True
  | .free r | .setSlot r _ _ | .setField r _ _ => r ≠ a
  | .arraySet r index value => r = a → ∀ w, Run.arraySet r index value v ≠ .ok () w
  | .disposeModule id => v.classes.ownerOf? type ≠ some id.toNat
  | .dispose => False
  | _ => v.Needed a

namespace Vault

variable {v w : Vault} {a r : ObjectRef} {o : Object} {t : CoreType} {id : ModuleId}

/-- An object is the same in two vaults. -/
def Leaves (v : Vault) (a : ObjectRef) (w : Vault) : Prop := w.heap.get? a = v.heap.get? a

theorem Leaves.refl (v : Vault) (a : ObjectRef) : v.Leaves a v := rfl

/-- What leaves the heap alone leaves every object alone. -/
theorem Leaves.of_heap (h : w.heap = v.heap) : v.Leaves a w := by rw [Leaves, h]

/-- What preserves the needed objects leaves each of them alone. -/
theorem Preserves.leaves (h : v.Preserves w) (ha : v.Needed a) : v.Leaves a w := (h a ha).2

/-- What shelters the needed objects leaves each of them alone. -/
theorem Shelters.leaves (h : v.Shelters w) (ha : v.Needed a) : v.Leaves a w := h.preserves.leaves ha

/-- Writing to another object leaves an object alone. -/
theorem leaves_written (hr : r ≠ a) (offset : Nat) (value : Value) :
    v.Leaves a (v.written r offset value) := get?_written_of_ne hr.symm offset value

/-- The predefined classes belong to no module, so their objects stay when a module goes. -/
theorem leaves_release (hs : v.Sound) (ho : v.Orderly) (ha : v.heap.get? a = some o)
    (ht : o.type = t.ref) (hcore : CoreType.owner.toNat < id.toNat) :
    v.Leaves a (v.release id) := by
  obtain ⟨c, he, _⟩ := hs.predefined t
  have hother : o.type ∉ v.classes.handlesOf id.toNat := by
    rw [ht, hs.arena.mem_handlesOf_iff, ownerOf?_eq_some_iff.2 ⟨c, he⟩]
    exact fun heq => Nat.ne_of_lt hcore (Option.some.inj heq)
  obtain ⟨_, _, _, hk⟩ := ho.kept
  rw [get?_eq_map_bare?] at ha
  obtain ⟨e, hbare, rfl⟩ := Option.map_eq_some_iff.1 ha
  have hafter : (v.release id).heap.bare? a = some e := by
    rw [heap_release_eq]
    exact (bare?_freeWhere_iff hk.tidy.living).2 ⟨hbare, fun _ => decide_eq_false hother⟩
  exact get?_eq_of_bare? (hafter.trans hbare.symm)

end Vault

namespace Run

variable {v : Vault} {a r : ObjectRef}

/-! ## Objects -/

/-- Storing a further object leaves those that live alone. -/
theorem store_leaves (ho : v.Orderly) (ha : v.heap.contains a) (object : Object) (size : UInt64)
    (immortal : Bool) :
    Ends (store object size immortal v) (fun _ => v.Leaves a) (v.Leaves a) := by
  unfold store
  cases hinsert : v.heap.insert object size immortal with
  | ok r heap =>
      obtain ⟨_, _, _, hk⟩ := ho.kept
      have hne : a ≠ r := fun heq => not_contains_of_insert hk.tidy.toThreads hinsert (heq ▸ ha)
      have hbare : heap.bare? a = v.heap.bare? a := by
        rw [bare?_insert hk.tidy.toThreads hinsert, if_neg hne]
      exact get?_eq_of_bare? hbare
  | error e heap => exact .of_heap (insert_eq_error hinsert)

/-- An immortal object is stored without a collection. -/
theorem allocateImmortal_leaves (ho : v.Orderly) (ha : v.heap.contains a) (type : ClassRef) :
    Ends (allocateImmortal type v) (fun _ => v.Leaves a) (v.Leaves a) :=
  Ends.askThen (fun _ _ => Ends.askThen (fun new _ => store_leaves ho ha new.1 new.2 true)
    (.refl v a)) (.refl v a)

/-- Freeing another object leaves an object alone. -/
theorem free_leaves (ha : v.heap.contains a) (hr : r ≠ a) :
    Ends (free r v) (fun _ => v.Leaves a) (v.Leaves a) := by
  unfold free
  cases hfree : v.heap.free r with
  | ok object heap =>
      obtain ⟨hobject, rfl⟩ := free_eq_ok hfree
      have hlive : v.heap.contains r := by rw [← isSome_get?, hobject]; rfl
      obtain ⟨e, he⟩ := Option.isSome_iff_exists.1 hlive
      obtain ⟨x, hx⟩ := Option.isSome_iff_exists.1 ha
      have hindex : r.index ≠ a.index := fun heq => hr (by
        rw [← handleAt_eq_of_entry he, ← handleAt_eq_of_entry hx, heq])
      have hbare : (v.heap.remove r.index).bare? a = v.heap.bare? a := by
        rw [bare?_remove, if_neg hindex]
      exact get?_eq_of_bare? hbare
  | error e heap => exact .of_heap (free_eq_error hfree)

/-- A slot is written, or nothing happens. -/
theorem setSlot_writes (r : ObjectRef) (offset : Nat) (value : Value) :
    Ends (setSlot r offset value v) (fun _ w => w = v.written r offset value) (· = v) :=
  Ends.askThen (fun _ _ => rfl) rfl

/-- Writing a slot of another object leaves an object alone. -/
theorem setSlot_leaves (hr : r ≠ a) (offset : Nat) (value : Value) :
    Ends (setSlot r offset value v) (fun _ => v.Leaves a) (v.Leaves a) :=
  (setSlot_writes r offset value).mono (fun _ _ hw => hw ▸ leaves_written hr offset value)
    fun _ hw => hw ▸ .refl v a

/-- A write to an element changes one slot of the array, or nothing if it fails. -/
theorem arraySet_writes (r : ObjectRef) (index : Int) (value : Option ObjectRef) :
    Ends (arraySet r index value v) (fun _ w => ∃ offset stored, w = v.written r offset stored)
      (· = v) := by
  unfold arraySet
  refine Ends.askThen (fun place _ => Ends.askThen (fun _ _ =>
    Ends.askThen (fun stored _ => ?_) rfl) rfl) rfl
  refine Ends.askThen (fun offset _ => Ends.get ?_) rfl
  cases (v.heap.get? r).bind (·.slot? offset) with
  | none => rfl
  | some content =>
      cases content with
      | elements items =>
          dsimp only
          by_cases hplace : place < items.length
          · rw [if_pos hplace]
            exact (setSlot_writes r offset _).imp fun _ _ hw => ⟨offset, _, hw⟩
          · rw [if_neg hplace]
            rfl
      | _ => rfl

/-- Writing to an array leaves every other object alone, and all of them if it fails. -/
theorem arraySet_leaves {index : Int} {value : Option ObjectRef}
    (hr : r = a → ∀ w, arraySet r index value v ≠ .ok () w) :
    Ends (arraySet r index value v) (fun _ => v.Leaves a) (v.Leaves a) := by
  have hrun := arraySet_writes (v := v) r index value
  cases hresult : arraySet r index value v with
  | ok _ w =>
      rw [hresult] at hrun
      obtain ⟨offset, stored, rfl⟩ := hrun
      exact leaves_written (fun heq => hr heq _ hresult) offset stored
  | error e w =>
      rw [hresult] at hrun
      exact hrun ▸ .refl v a

/-! ## Frames -/

/-- Pushing a frame leaves all objects alone. -/
theorem pushFrame_leaves (parent : Option FrameRef) (method : FrameMethod) :
    Ends (pushFrame parent method v) (fun _ => v.Leaves a) (v.Leaves a) := by
  unfold pushFrame
  cases parent with
  | none => exact .refl v a
  | some p => exact Ends.askThen (fun _ _ => .refl v a) (.refl v a)

/-- Popping a frame leaves all objects alone. -/
theorem popFrame_leaves (ref : FrameRef) :
    Ends (popFrame ref v) (fun _ => v.Leaves a) (v.Leaves a) := by
  unfold popFrame
  refine Ends.get ?_
  split
  · exact .refl v a
  · generalize v.frames.remove ref = removed
    obtain ⟨_ | f, frames⟩ := removed
    · exact .refl v a
    · exact .refl v a

/-! ## Native methods and modules -/

/-- Calling a native method preserves what is needed. -/
theorem invokeNative_preserves (ho : v.Orderly) (m : MethodRef) (frame : FrameRef)
    (args : NativeArguments) :
    Ends (invokeNative m frame args v) (fun _ => v.Preserves) v.Preserves := by
  have hstop : v.Preserves v := (Shelters.refl ho).preserves
  unfold invokeNative
  refine Ends.get ?_
  cases v.method? m with
  | none => exact hstop
  | some method =>
      dsimp only
      cases method.native with
      | none => exact hstop
      | some binding =>
          cases binding with
          | builtin key function =>
              exact (callBuiltin_preserves ho function frame args).imp fun _ _ => And.left
          | unavailable => exact hstop
          | imported => exact hstop

/-- Disposing of a module removes it with what it owns, or changes nothing. -/
theorem disposeModule_after (v : Vault) (id : ModuleId) :
    stateAfter (disposeModule id v) = v ∨ ∃ m, v.module? id = some m ∧
      stateAfter (disposeModule id v) =
        ({ v with modules := v.modules.filter (·.id ≠ id) } : Vault).release id := by
  unfold disposeModule
  rw [get_bind]
  cases hm : v.module? id with
  | none => exact Or.inl rfl
  | some m => exact Or.inr ⟨m, rfl, rfl⟩

end Run

/-! ## All operations -/

namespace Operation.Spares

variable {v : Vault} {a : ObjectRef} {o : Object} {t : CoreType} {type : ClassRef} {c : Class}
  {operation : Operation}

/-- An operation that spares an object leaves it as it was. -/
theorem leaves (h : operation.Spares v a type) (hv : v.Reachable) (ha : v.heap.get? a = some o)
    (ht : o.type = t.ref) : v.Leaves a (operation.after v) := by
  have hself := Shelters.refl hv.orderly
  have hlive : v.heap.contains a := by rw [← isSome_get?, ha]; rfl
  have hpreserves {α : Type} {run : EStateM.Result Failure Vault α} (ha : v.Needed a)
      (hrun : Ends run (fun _ => v.Preserves) v.Preserves) : v.Leaves a (stateAfter run) :=
    (ends_iff.1 hrun).leaves ha
  have hshelters {α : Type} {run : EStateM.Result Failure Vault α} (ha : v.Needed a)
      (hrun : Ends run (fun _ => v.Shelters) v.Shelters) : v.Leaves a (stateAfter run) :=
    (ends_iff.1 hrun).leaves ha
  cases operation with
  | allocate type =>
      exact hshelters h ((Run.allocateSized_brings hself type 0).imp fun _ _ => Brings.toShelters)
  | allocateImmortal type => exact ends_iff.1 (Run.allocateImmortal_leaves hv.orderly hlive type)
  | free r => exact ends_iff.1 (Run.free_leaves hlive h)
  | setSlot r offset value => exact ends_iff.1 (Run.setSlot_leaves h offset value)
  | setField r name value =>
      exact ends_iff.1 (Ends.askThen (fun offset _ => Run.setSlot_leaves h offset value)
        (.refl v a))
  | collect => exact hself.collected.leaves h
  | box value => exact hshelters h ((Run.box_shelters hself value).imp fun _ _ => And.left)
  | newArray element size =>
      exact hshelters h ((Run.newArray_brings hself element size).imp fun _ _ => Brings.toShelters)
  | arrayGet r index =>
      exact hshelters h ((Run.arrayGet_shelters hself r index).imp fun _ _ => And.left)
  | arraySet r index value => exact ends_iff.1 (Run.arraySet_leaves h)
  | pushFrame parent method => exact ends_iff.1 (Run.pushFrame_leaves parent method)
  | popFrame ref => exact ends_iff.1 (Run.popFrame_leaves ref)
  | changeFrame => exact .refl v a
  | throwException ref type =>
      exact hpreserves h ((Run.throwException_preserves hself ref type).imp fun _ _ => And.left)
  | throwMessage ref type message =>
      exact hpreserves h
          ((Run.throwMessage_preserves hself ref type message).imp fun _ _ => And.left)
  | throwFault ref failure =>
      exact hpreserves h ((Run.throwFault_preserves hself ref failure).imp fun _ _ => And.left)
  | callBuiltin function ref args =>
      exact hpreserves h ((Run.callBuiltin_preserves hv.orderly function ref args).imp
        fun _ _ => And.left)
  | invokeNative m ref args => exact hpreserves h (Run.invokeNative_preserves hv.orderly m ref args)
  | useRegistry => exact .refl v a
  | disposeModule id =>
      show v.Leaves a (stateAfter (Run.disposeModule id v))
      rcases Run.disposeModule_after v id with hsame | ⟨m, hm, hafter⟩
      · rw [hsame]
        exact .refl v a
      · obtain ⟨hmem, rfl⟩ := mem_of_module? hm
        have hreleased := leaves_release hv.sound hv.orderly ha ht (hv.sound.numbers m hmem).1
        rw [hafter]
        exact hreleased
  | dispose => exact h.elim

end Operation.Spares

end VaultKernel
