import VaultKernel.Proofs.Arena.Slots
import VaultKernel.Proofs.Heap.History
import VaultKernel.Proofs.Vault.ObjectOperations
import VaultKernel.Vault.Dispose

/-!
# Orderly heaps

`Vault.Orderly` is what holds of the heap of a vault between any two steps: it came about through
operations of heaps, and every object that a collection may remove fits its class. The second half
is why a module can take its objects along when it goes, and why one without objects takes nothing.
-/

namespace VaultKernel.Vault

open Arena Heap

/-- The invariant of the heap of a vault. -/
structure Orderly (v : Vault) : Prop where
  history : ∃ limits events, History limits v.heap events
  typed : ∀ r e, v.heap.bare? r = some e → e.header.immortal = false → v.Fits e.value

variable {v v' : Vault} {id : ModuleId}

/-- The heap of a vault keeps the invariant of heaps. -/
theorem Orderly.kept (ho : v.Orderly) : ∃ events live vacant, Kept v.heap events live vacant := by
  obtain ⟨limits, events, hhistory⟩ := ho.history
  exact ⟨events, hhistory.kept⟩

/-- The heap stays as it is and so do the classes that are laid out. -/
theorem Orderly.congr (ho : v.Orderly) (hheap : v'.heap = v.heap)
    (hclasses : ∀ r c, v.class? r = some c → c.layout.isSome → v'.class? r = some c) :
    v'.Orderly := by
  refine ⟨?_, fun r e he himmortal => (ho.typed r e ?_ himmortal).mono hclasses⟩
  · rw [hheap]
    exact ho.history
  · rwa [← hheap]

/-- Objects go and the classes of the others stay. -/
theorem Orderly.shrink (ho : v.Orderly) (hhistory : ∃ limits events, History limits v'.heap events)
    (hsub : ∀ r e, v'.heap.bare? r = some e → v.heap.bare? r = some e)
    (hclasses : v'.classes = v.classes) : v'.Orderly :=
  ⟨hhistory, fun r e he himmortal => (ho.typed r e (hsub r e he) himmortal).mono fun q c hc _ => by
    rwa [class?, hclasses]⟩

/-! ## Objects and frames -/

/-- A change of the objects or the frames keeps the heap in order. -/
theorem Tended.orderly (h : v.Tended v') (ho : v.Orderly) : v'.Orderly := by
  obtain ⟨limits, events, hhistory⟩ := ho.history
  obtain ⟨live, vacant, hk⟩ := hhistory.kept
  cases h with
  | collected =>
      refine ho.shrink ⟨limits, _, hhistory.collect v.roots⟩ (fun r e he => ?_) rfl
      obtain ⟨_, _, hreached, hgone⟩ := collect_spec hk.tidy hk.white v.roots
      by_cases hr : Reached v.heap v.roots r
      · exact hreached r hr ▸ he
      · rw [show v.collected.2.heap.bare? r = none from hgone r hr] at he
        cases he
  | stored hfits hinsert =>
      refine ⟨⟨limits, _, hhistory.allocated _ _ _ hinsert⟩, fun r e he himmortal => ?_⟩
      rw [bare?_insert hk.tidy.toThreads hinsert] at he
      split at he
      · cases he
        exact hfits
      · exact ho.typed r e he himmortal
  | freed hfree =>
      refine ho.shrink ⟨limits, _, hhistory.freed _ hfree⟩ (fun r e he => ?_) rfl
      obtain ⟨_, rfl⟩ := free_eq_ok hfree
      rw [bare?_remove] at he
      split at he
      · cases he
      · exact he
  | changed r offset value =>
      refine ⟨⟨limits, _, hhistory.modify r fun o => o.setSlot offset value⟩,
        fun q e he himmortal => ?_⟩
      rw [bare?_modify] at he
      split at he
      · obtain ⟨e', he', rfl⟩ := Option.map_eq_some_iff.1 he
        exact (ho.typed q e' he' himmortal).setSlot offset value
      · exact ho.typed q e he himmortal
  | pushed => exact ho.congr rfl fun _ _ hc _ => hc
  | popped => exact ho.congr rfl fun _ _ hc _ => hc
  | reframed => exact ho.congr rfl fun _ _ hc _ => hc

/-- A row of such changes keeps the heap in order. -/
theorem Tends.orderly (h : v.Tends v') (ho : v.Orderly) : v'.Orderly := by
  induction h with
  | refl => exact ho
  | tail _ hstep ih => exact hstep.orderly ih

/-! ## Removal of modules -/

/-- A released module frees the objects of its classes. -/
theorem heap_release_eq (v : Vault) (id : ModuleId) : (v.release id).heap =
    (v.heap.freeWhere fun o : Object => o.type ∈ v.classes.handlesOf id.toNat).2 := rfl

/-- What a released module does to the heap is an operation of heaps. -/
theorem history_release {limits : HeapLimits} {events : List SlotEvent}
    (h : History limits v.heap events) (id : ModuleId) :
    ∃ events, History limits (v.release id).heap events := by
  rw [heap_release_eq]
  exact ⟨_, h.freeWhere _⟩

/-- A module goes with its classes and their objects. -/
theorem Orderly.release (ho : v.Orderly) (hs : v.classes.Sound) (id : ModuleId) :
    (v.release id).Orderly := by
  obtain ⟨limits, events, hhistory⟩ := ho.history
  obtain ⟨live, vacant, hk⟩ := hhistory.kept
  refine ⟨⟨limits, history_release hhistory id⟩, fun r e he himmortal => ?_⟩
  rw [heap_release_eq] at he
  obtain ⟨hbefore, hspared⟩ := (bare?_freeWhere_iff hk.tidy.living).1 he
  obtain ⟨c, l, hc, hrest⟩ := ho.typed r e hbefore himmortal
  obtain ⟨owner, hclass⟩ := get?_eq_some_iff.1 hc
  have howner : owner ≠ id.toNat := by
    rintro rfl
    have hmem := hs.mem_handlesOf_iff.2 (ownerOf?_eq_some_iff.2 ⟨c, hclass⟩)
    simpa [hmem] using hspared himmortal
  have hkept := (removeOwner_spec hs id.toNat).1.entry?_kept howner hclass
  exact ⟨c, l, get?_eq_some_iff.2 ⟨_, hkept⟩, hrest⟩

/-- A module whose classes have no objects leaves the heap alone. -/
theorem heap_release (hs : v.classes.Sound)
    (hnone : ∀ r e, v.heap.bare? r = some e → e.header.immortal = false →
      v.classes.ownerOf? e.value.type ≠ some id.toNat) : (v.release id).heap = v.heap := by
  rw [heap_release_eq, freeWhere_of_none]
  intro r e he himmortal
  rw [decide_eq_false_iff_not, hs.mem_handlesOf_iff]
  exact hnone r e he himmortal

/-- All objects go that a collection might remove. -/
theorem Orderly.freeMortals (ho : v.Orderly) (frames : Arena Frame)
    (systemFrames : List (String × FrameRef)) :
    ({ v with heap := v.heap.freeMortals.2, frames, systemFrames } : Vault).Orderly := by
  obtain ⟨limits, events, hhistory⟩ := ho.history
  obtain ⟨live, vacant, hk⟩ := hhistory.kept
  refine ho.shrink ⟨limits, _, hhistory.freeMortals⟩ (fun r e he => ?_) rfl
  exact ((bare?_freeWhere_iff hk.tidy.living (p := fun _ => true)).1 he).1

/-! ## New vaults -/

/-- A new vault has nothing but the predefined classes, the system frames and the sentinel. -/
theorem create_eq_ok {config : VaultConfig} {registry : NativeRegistry}
    (h : create config registry = .ok v) : ∃ tokens classes sentinel heap,
      CoreType.install { lastModule := CoreType.owner } = .ok (tokens, classes) ∧
      (Heap.empty config.heap).allocateImmortal (Object.blank CoreType.object.ref 0) 0 =
        .ok sentinel heap ∧
      v = {
        config, heap, classes, registry, tokens, sentinel
        frames := Frame.installSystem.1
        systemFrames := Frame.installSystem.2 } := by
  obtain ⟨⟨tokens, classes⟩, hinstall, hrest⟩ := bind_eq_ok.1 h
  dsimp only at hrest
  split at hrest
  · next sentinel heap hinsert =>
      cases hrest
      refine ⟨tokens, classes, sentinel, heap, ?_, hinsert, rfl⟩
      cases hresult : CoreType.install { lastModule := CoreType.owner } with
      | error cause =>
          rw [hresult] at hinstall
          cases hinstall
      | ok state =>
          rw [hresult] at hinstall
          cases hinstall
          rfl
  · cases hrest

/-- The heap of a new vault is in order. -/
theorem orderly_create {config : VaultConfig} {registry : NativeRegistry}
    (h : create config registry = .ok v) : v.Orderly := by
  obtain ⟨_, _, _, _, _, hinsert, rfl⟩ := create_eq_ok h
  refine ⟨⟨_, _, History.start.allocated _ _ _ hinsert⟩, fun r e he himmortal => ?_⟩
  rw [bare?_insert (Threads.empty config.heap) hinsert] at he
  split at he
  · cases he
    cases himmortal
  · simp [bare?, Heap.entry?_eq, Heap.generation?, Heap.empty] at he

end VaultKernel.Vault
