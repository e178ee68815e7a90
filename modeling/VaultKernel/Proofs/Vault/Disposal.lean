import VaultKernel.Proofs.Arena.Handles
import VaultKernel.Proofs.Vault.Chronicle
import VaultKernel.Proofs.Vault.Requests

/-!
# What disposals remove

A module lists the classes that it defined, and the arena of the classes lists them under the number
of the module. In a reachable vault the two lists agree, so a disposed module takes along exactly
its own classes with the collected objects of these (`ModuleRemoved`). A disposed vault is left with
its immortal objects (`Emptied`); it also loses all frames, because all of them have the one owner
that is removed (`Reachable.framed`). The main statement is `disposals_exact`.
-/

namespace VaultKernel

open Arena Heap

namespace Vault

variable {v v' w : Vault} {m : Module} {id : ModuleId}

/-! ## Frames -/

/-- Frames are in order and have one owner. -/
def Framed (v : Vault) : Prop := v.frames.HeldBy Frame.owner

/-- A change of the objects or the frames leaves the frames in order. -/
theorem Tended.framed (h : v.Tended v') (hv : v.Framed) : v'.Framed := by
  cases h with
  | pushed f => exact HeldBy.allocate hv f
  | popped ref => exact HeldBy.remove hv ref
  | reframed ref f => exact HeldBy.modify hv ref f
  | _ => exact hv

/-- A change of the vault leaves the frames in order. -/
theorem Step.framed (h : v.Step w) (hv : v.Framed) : w.Framed := by
  cases h with
  | tended h => exact h.framed hv
  | staged h =>
      rw [h.rest]
      exact hv
  | swept => exact HeldBy.removeOwner hv
  | _ => exact hv

/-- The frames of the runtime have one owner. -/
theorem heldBy_installSystem : Frame.installSystem.1.HeldBy Frame.owner := by
  unfold Frame.installSystem
  -- each frame is stored among those that are there already
  exact List.foldlRecOn (motive := fun state : Arena Frame × List (String × FrameRef) =>
    state.1.HeldBy Frame.owner) Frame.systemNames _
    HeldBy.empty fun state hstate name _ => hstate.allocate _

/-- The frames of a new vault are those of the runtime. -/
theorem framed_create {config : VaultConfig} {registry : NativeRegistry}
    (h : create config registry = .ok v) : v.Framed := by
  obtain ⟨_, _, _, _, _, _, rfl⟩ := create_eq_ok h
  exact heldBy_installSystem

/-- A row of changes leaves the frames in order. -/
theorem Steps.framed (h : v.Steps w) (hv : v.Framed) : w.Framed := by
  induction h with
  | refl => exact hv
  | tail _ hstep ih => exact hstep.framed ih

/-- The frames of a reachable vault are in order and have one owner. -/
theorem Reachable.framed (hv : v.Reachable) : v.Framed := by
  obtain ⟨config, registry, v₀, hcreated, hreaches⟩ := hv
  exact (hreaches.steps (sound_create hcreated)).framed (framed_create hcreated)

/-! ## One module -/

/-- A released module takes its own classes along and no others. -/
theorem entry?_release (hs : v.classes.Sound) (id : ModuleId) (r : ClassRef) :
    (v.release id).classes.entry? r =
      if v.classes.ownerOf? r = some id.toNat then none else v.classes.entry? r :=
  (removeOwner_spec hs id.toNat).1.entry?_eq r

/-- A released module takes the collected objects of its classes along and no others. -/
theorem Orderly.thinned_release (ho : v.Orderly) (id : ModuleId) :
    Thinned (fun e => e.header.immortal || !decide (e.value.type ∈ v.classes.handlesOf id.toNat))
      v.heap (v.release id).heap := by
  obtain ⟨_, live, vacant, hk⟩ := ho.kept
  exact hk.tidy.thinned fun o => o.type ∈ v.classes.handlesOf id.toNat

/-- The objects that the arena of the classes asks for are those that the module asks for. -/
theorem Sound.heap_release (hs : v.Sound) (hm : m ∈ v.modules.toList) :
    (v.release m.id).heap = (v.heap.freeWhere fun o => m.owns o.type).2 := by
  have howns (o : Object) : decide (o.type ∈ v.classes.handlesOf m.id.toNat) = m.owns o.type := by
    rw [Module.owns, decide_eq_decide, hs.arena.mem_handlesOf_iff, hs.owned_iff m hm]
  rw [heap_release_eq]
  simp only [howns]

/-- A module went with its own classes and the collected objects of these. Nothing else changed. -/
structure ModuleRemoved (m : Module) (v v' : Vault) : Prop where
  modules : ∃ before after, v.modules.toList = before ++ m :: after ∧
    v'.modules.toList = before ++ after
  classes : ∀ r, v'.classes.entry? r = if m.owns r then none else v.classes.entry? r
  heap : v'.heap = (v.heap.freeWhere fun o => m.owns o.type).2
  objects : Thinned (fun e => e.header.immortal || !m.owns e.value.type) v.heap v'.heap
  rest : v' = { v with modules := v'.modules, classes := v'.classes, heap := v'.heap }

/-- Taking out the modules with a number takes out one. -/
theorem Distinct.filter_eq (h : v.Distinct) {before after : List Module}
    (hmodules : v.modules.toList = before ++ m :: after) :
    (v.modules.filter (·.id ≠ m.id)).toList = before ++ after := by
  rw [Distinct, hmodules, idsOf, List.map_append, List.map_cons] at h
  have hfresh := (List.nodup_cons.1 (List.nodup_middle.1 h)).1
  have hkept : ∀ m' ∈ before ++ after, m'.id ≠ m.id := fun m' hm' heq =>
    hfresh (by rw [← List.map_append, ← heq]; exact List.mem_map_of_mem hm')
  rw [Array.toList_filter, hmodules, List.filter_append, List.filter_cons_of_neg (by simp),
    ← List.filter_append, List.filter_eq_self]
  exact fun m' hm' => decide_eq_true (hkept m' hm')

/-- A module that is not loaded cannot be disposed. -/
theorem disposeModule_eq_error (hid : ∀ m ∈ v.modules.toList, m.id ≠ id) :
    Run.disposeModule id v = .error (.fatal (.moduleNotLoaded id)) v := by
  have hnone : v.module? id = none := by
    rw [module?, Array.find?_eq_none]
    intro m hm
    simpa using hid m (Array.mem_toList_iff.2 hm)
  unfold Run.disposeModule
  rw [get_bind, hnone]
  rfl

/-- A loaded module can be disposed, and goes with what it owns. -/
theorem disposeModule_eq_ok (hv : v.Reachable) (hm : m ∈ v.modules.toList) :
    ∃ v', Run.disposeModule m.id v = .ok () v' ∧ ModuleRemoved m v v' := by
  have hs := hv.sound
  refine ⟨({ v with modules := v.modules.filter (·.id ≠ m.id) } : Vault).release m.id, ?_, ?_⟩
  · unfold Run.disposeModule
    rw [get_bind, hv.distinct.module? hm]
    rfl
  · obtain ⟨before, after, hmodules⟩ := List.append_of_mem hm
    obtain ⟨_, live, vacant, hk⟩ := hv.orderly.kept
    have hheap := hs.heap_release hm
    refine ⟨⟨before, after, hmodules, hv.distinct.filter_eq hmodules⟩, fun r => ?_, hheap, ?_, rfl⟩
    · simp only [Module.owns, decide_eq_true_eq, hs.owned_iff m hm]
      exact entry?_release hs.arena m.id r
    · exact hheap ▸ hk.tidy.thinned fun o => m.owns o.type

/-! ## Whole vaults -/

/-- The counter of living objects is their number. -/
theorem Orderly.aliveObjects_eq (ho : v.Orderly) :
    v.heap.stats.aliveObjects = v.heap.handles.length := by
  obtain ⟨_, live, vacant, hk⟩ := ho.kept
  rw [hk.tidy.aliveObjects_eq, hk.tidy.living.handles_eq, List.length_map]

/-- The modules of a vault take their own classes along and none of the immortal objects. -/
theorem releaseAll_spec (hs : v.Sound) (ho : v.Orderly) {ms : List Module}
    (hms : ms ⊆ v.modules.toList) :
    let w := ms.foldr (fun m (w : Vault) => w.release m.id) { v with modules := #[] }
    (∀ r, w.classes.entry? r =
        if ms.any (·.owns r) then none else v.classes.entry? r) ∧
      (∃ keep, (∀ e, e.header.immortal → keep e) ∧ Thinned keep v.heap w.heap) ∧
      w = { v with modules := #[], classes := w.classes, heap := w.heap } := by
  induction ms with
  | nil =>
      obtain ⟨_, live, vacant, hk⟩ := ho.kept
      exact ⟨fun r => by simp, ⟨_, fun _ _ => rfl, .refl hk.tidy.living⟩, rfl⟩
  | cons m ms ih =>
      obtain ⟨hm, hms⟩ := List.cons_subset.1 hms
      obtain ⟨hclasses, ⟨keep, himmortal, hthinned⟩, hrest⟩ := ih hms
      have hsafe := (hs.releaseAll hms).1
      refine ⟨fun r => ?_, ⟨_, fun e he => ?_, hthinned.trans
        ((hsafe.orderly ho).thinned_release m.id)⟩, ?_⟩
      · -- the classes of the module are still those that it had in the beginning
        rw [List.foldr_cons, entry?_release hsafe.sound.arena, ownerOf?, hclasses, List.any_cons]
        cases ms.any (·.owns r) with
        | true => simp
        | false => exact if_congr ((hs.owned_iff m hm r).symm.trans (by simp [Module.owns])) rfl rfl
      · simp [himmortal e he, he]
      · rw [List.foldr_cons, release, hrest]

/-- A vault lost its modules with their classes, all frames and all objects but the immortal ones.
Nothing else changed but that its report is there. -/
structure Emptied (v w : Vault) : Prop where
  modules : w.modules = #[]
  classes : ∀ r, w.classes.entry? r =
    if v.modules.toList.any (·.owns r) then none else v.classes.entry? r
  objects : Thinned (·.header.immortal) v.heap w.heap
  frames : ∀ r, w.frames.entry? r = none
  systemFrames : w.systemFrames = []
  disposed : w.disposed = some w.report
  aliveObjects : w.report.aliveObjects = v.heap.immortals.length
  rest : w = { v with
    modules := w.modules, classes := w.classes, heap := w.heap, frames := w.frames,
    systemFrames := w.systemFrames, disposed := w.disposed }

/-- The sweep at the end removes whatever collected objects the modules did not take along. -/
theorem Reachable.emptied (hv : v.Reachable) :
    v.Emptied { v.cleared with disposed := some v.cleared.report } := by
  obtain ⟨hclasses, ⟨keep, himmortal, hthinned⟩, hrest⟩ :=
    releaseAll_spec hv.sound hv.orderly (List.Subset.refl v.modules.toList)
  have hsafe := (hv.sound.releaseAll (List.Subset.refl _)).1
  have hcleared := hv.sound.cleared.orderly hv.orderly
  rw [Array.foldr_toList] at hclasses hthinned hrest hsafe
  obtain ⟨_, live, vacant, hk⟩ := (hsafe.orderly hv.orderly).kept
  have hobjects : Thinned (·.header.immortal) v.heap v.cleared.heap := by
    refine (hthinned.trans (hk.tidy.thinned fun _ => true)).congr fun e => ?_
    cases hm : e.header.immortal <;> simp [hm, himmortal e]
  refine ⟨modules_cleared hv.sound, hclasses, hobjects, fun r => ?_, rfl, rfl, ?_, ?_⟩
  · have hframes := congrArg Vault.frames hrest
    show Arena.entry? (removeOwner (Vault.frames _) Frame.owner).2 r = none
    rw [hframes]
    exact hv.framed.entry?_removeOwner r
  · rw [immortals_eq, ← hobjects.handles, ← hcleared.aliveObjects_eq]
    rfl
  · unfold cleared
    rw [hrest]

/-- A request to dispose a module that is not loaded changes nothing, and any other one removes
exactly the module. The first disposal of a vault leaves its immortal objects, and it fails exactly
if leaks are looked for and their number is not one. -/
theorem disposals_exact (hv : v.Reachable) :
    (∀ id, (∀ m ∈ v.modules.toList, m.id ≠ id) →
      Run.disposeModule id v = .error (.fatal (.moduleNotLoaded id)) v) ∧
    (∀ m ∈ v.modules.toList, ∃ v', Run.disposeModule m.id v = .ok () v' ∧ ModuleRemoved m v v') ∧
    (v.disposed = none → ∃ w, v.Emptied w ∧ Run.dispose v =
      if v.config.heap.checkLeaks ∧ v.heap.immortals.length ≠ 1 then
        .error (.heap (.leakDetected v.heap.immortals.length 1)) w
      else .ok w.report w) := by
  refine ⟨fun id hid => disposeModule_eq_error hid, fun m hm => disposeModule_eq_ok hv hm,
    fun hopen => ⟨_, hv.emptied, ?_⟩⟩
  have hconfig := congrArg Vault.config hv.emptied.rest
  rw [dispose_eq hopen, ← hv.emptied.aliveObjects, ← show v.cleared.config = v.config from hconfig]
  rfl

/-- An object in a slot that was used before goes with the module of its class. An immortal one
stays without a class, and it is a leak when the vault is disposed. -/
theorem disposals_exact_leaking : ∃ (v v' w : Vault) (m : Module) (e : HeapEntry Object),
    v.Reachable ∧ m ∈ v.modules.toList ∧ Run.disposeModule m.id v = .ok () v' ∧
      ModuleRemoved m v v' ∧ v.heap.contains ⟨2, 1⟩ ∧ v'.heap.bare? ⟨2, 1⟩ = none ∧
      v'.heap.bare? ⟨1, 0⟩ = some e ∧ v'.classes.entry? e.value.type = none ∧
      v.Emptied w ∧ Run.dispose v = .error (.heap (.leakDetected 2 1)) w := by
  have hrun : (create { heap := { checkLeaks := true } } {}).toOption.any fun v₀ =>
      (hollowImage "library" []).encode.toOption.any fun bytes =>
        let v₁ := stateAfter (Searcher.load {} bytes v₀)
        let v₂ := (Operation.allocate ⟨23, 0⟩).after ((Operation.allocateImmortal ⟨23, 0⟩).after v₁)
        let v := (Operation.allocate ⟨23, 0⟩).after ((Operation.free ⟨2, 0⟩).after v₂)
        v.modules.toList.any fun m => m.owns ⟨23, 0⟩ &&
          ((v.heap.bare? ⟨1, 0⟩).any fun e => e.header.immortal && e.value.type = ⟨23, 0⟩) &&
          ((v.heap.bare? ⟨2, 1⟩).any fun e => !e.header.immortal && e.value.type = ⟨23, 0⟩) &&
          v.disposed.isNone && v.config.heap.checkLeaks && v.heap.immortals.length = 2 := by
    decide +kernel
  obtain ⟨v₀, hcreated, hrun⟩ := (Option.any_eq_true _ _).1 hrun
  obtain ⟨bytes, _, hrun⟩ := (Option.any_eq_true _ _).1 hrun
  obtain ⟨m, hm, hrun⟩ := List.any_eq_true.1 hrun
  simp only [Bool.and_eq_true, decide_eq_true_eq, Option.isNone_iff_eq_none] at hrun
  obtain ⟨⟨⟨⟨⟨hown, himmortal⟩, hmortal⟩, hopen⟩, hcheck⟩, hcount⟩ := hrun
  obtain ⟨e, he, himmortal⟩ := (Option.any_eq_true _ _).1 himmortal
  obtain ⟨x, hx, hmortal⟩ := (Option.any_eq_true _ _).1 hmortal
  simp only [Bool.and_eq_true, Bool.not_eq_true', decide_eq_true_eq] at himmortal hmortal
  have hreaches := (((reaches_load {} bytes v₀).operate (.allocateImmortal ⟨23, 0⟩)).operate
    (.allocate ⟨23, 0⟩)).operate (.free ⟨2, 0⟩) |>.operate (.allocate ⟨23, 0⟩)
  have hv : Reachable _ := ⟨_, _, v₀, toOption_eq_some.1 hcreated, hreaches⟩
  obtain ⟨_, hmodule, hvault⟩ := disposals_exact hv
  obtain ⟨v', hdisposed, hremoved⟩ := hmodule m hm
  obtain ⟨w, hemptied, hdispose⟩ := hvault hopen
  rw [hcount, if_pos ⟨hcheck, by decide⟩] at hdispose
  refine ⟨_, v', w, m, e, hv, hm, hdisposed, hremoved, contains_iff_bare?.2 (by rw [hx]; rfl), ?_,
    ?_, ?_, hemptied, hdispose⟩
  · rw [hremoved.objects.objects, hx]
    simp [Option.filter, hmortal.1, hmortal.2, hown]
  · rw [hremoved.objects.objects, he]
    simp [Option.filter, himmortal.1]
  · rw [hremoved.classes, himmortal.2, if_pos hown]

end Vault

end VaultKernel
