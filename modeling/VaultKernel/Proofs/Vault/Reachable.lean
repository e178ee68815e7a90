import VaultKernel.Proofs.Class.Predefined
import VaultKernel.Proofs.Vault.ObjectOperations
import VaultKernel.Proofs.Vault.WholeLoads
import VaultKernel.Vault.Dispose
import VaultKernel.Vault.Search

/-!
# Reachable vaults

A vault is reachable if a new vault becomes it through public operations, of which any may have
failed. A load may use any resolver that itself acts through public operations; those of searchers
are among them. Every reachable vault is sound and its heap is orderly (`Reachable.sound`,
`Reachable.orderly`).
-/

namespace VaultKernel

open Arena Classes

/-- A public operation other than a load. -/
inductive Operation where
  | allocate (type : ClassRef)
  | allocateImmortal (type : ClassRef)
  | free (object : ObjectRef)
  | setSlot (object : ObjectRef) (offset : Nat) (value : Value)
  | setField (object : ObjectRef) (name : String) (value : Value)
  | collect
  | box (value : Value)
  | newArray (element : ClassRef) (size : Nat)
  | arrayGet (array : ObjectRef) (index : Int)
  | arraySet (array : ObjectRef) (index : Int) (value : Option ObjectRef)
  | pushFrame (parent : Option FrameRef) (method : FrameMethod)
  | popFrame (frame : FrameRef)
  | changeFrame (frame : FrameRef) (f : Frame → Frame)
  | throwException (frame : FrameRef) (type : ClassRef)
  | throwMessage (frame : FrameRef) (type : ClassRef) (message : String)
  | throwFault (frame : FrameRef) (failure : Failure)
  | callBuiltin (function : Builtin) (frame : FrameRef) (args : NativeArguments)
  | invokeNative (method : MethodRef) (frame : FrameRef) (args : NativeArguments)
  /-- Builtins and libraries are shared with others. -/
  | useRegistry (f : NativeRegistry → NativeRegistry)
  | disposeModule (id : ModuleId)
  | dispose

/-- The vault after an operation. -/
def Operation.after : Operation → Vault → Vault
  | .allocate type, v => stateAfter (Run.allocate type v)
  | .allocateImmortal type, v => stateAfter (Run.allocateImmortal type v)
  | .free object, v => stateAfter (Run.free object v)
  | .setSlot object offset value, v => stateAfter (Run.setSlot object offset value v)
  | .setField object name value, v => stateAfter (Run.setField object name value v)
  | .collect, v => stateAfter (Run.collect v)
  | .box value, v => stateAfter (Run.box value v)
  | .newArray element size, v => stateAfter (Run.newArray element size v)
  | .arrayGet array index, v => stateAfter (Run.arrayGet array index v)
  | .arraySet array index value, v => stateAfter (Run.arraySet array index value v)
  | .pushFrame parent method, v => stateAfter (Run.pushFrame parent method v)
  | .popFrame frame, v => stateAfter (Run.popFrame frame v)
  | .changeFrame frame f, v => stateAfter (Run.changeFrame frame f v)
  | .throwException frame type, v => stateAfter (Run.throwException frame type v)
  | .throwMessage frame type message, v => stateAfter (Run.throwMessage frame type message v)
  | .throwFault frame failure, v => stateAfter (Run.throwFault frame failure v)
  | .callBuiltin function frame args, v => stateAfter (Run.callBuiltin function frame args v)
  | .invokeNative method frame args, v => stateAfter (Run.invokeNative method frame args v)
  | .useRegistry f, v => { v with registry := f v.registry }
  | .disposeModule id, v => stateAfter (Run.disposeModule id v)
  | .dispose, v => stateAfter (Run.dispose v)

namespace Vault

/-- One vault becomes another one through public operations. -/
inductive Reaches : Vault → Vault → Prop where
  | refl (v : Vault) : Reaches v v
  | operate {v w : Vault} (operation : Operation) :
      Reaches v w → Reaches v (operation.after w)
  | load {v w : Vault} {resolve : Resolver} (bytes : Wire.Bytes) :
      (∀ name version u, Reaches u (stateAfter (resolve name version u))) →
      Reaches v w → Reaches v (stateAfter (Run.loadImage resolve bytes w))

/-- A vault that a new one becomes through public operations. -/
def Reachable (v : Vault) : Prop :=
  ∃ config registry v₀, create config registry = .ok v₀ ∧ v₀.Reaches v

/-- Public operations can follow one another. -/
theorem Reaches.trans {v₁ v₂ v₃ : Vault} (h₁₂ : v₁.Reaches v₂) (h₂₃ : v₂.Reaches v₃) :
    v₁.Reaches v₃ := by
  induction h₂₃ with
  | refl => exact h₁₂
  | operate operation _ ih => exact .operate operation (ih h₁₂)
  | load bytes hresolve _ _ ih => exact .load bytes hresolve (ih h₁₂)

/-! ## Searchers -/

/-- Checking the version of a loaded module changes nothing. -/
theorem checkVersion_spec {E : Vault → Prop} {v : Vault} (hv : E v) (name : String)
    (version : Version) (id : ModuleId) :
    Ends (Searcher.checkVersion name version id v) (fun _ v' => v' = v) E := by
  unfold Searcher.checkVersion
  refine Ends.get ?_
  cases v.module? id with
  | none => exact hv
  | some m =>
      dsimp only
      split
      · rfl
      · exact hv

/-- What a searcher does is a load or nothing. -/
theorem related_resolveWithin {R : Vault → Vault → Prop} (hrefl : ∀ v, R v v)
    (hload : ∀ {resolve : Resolver} (bytes : Wire.Bytes) (v : Vault),
      (∀ name version u, R u (stateAfter (resolve name version u))) →
        R v (stateAfter (Run.loadImage resolve bytes v)))
    (s : Searcher) (depth : Nat) (name : String) (version : Version) (v : Vault) :
    R v (stateAfter (s.resolveWithin depth name version v)) := by
  induction depth generalizing name version v with
  | zero => exact hrefl v
  | succ depth ih =>
      refine ends_iff.1 ?_
      unfold Searcher.resolveWithin
      refine Ends.get ?_
      cases v.findModule? name version with
      | some id => exact hrefl v
      | none =>
          dsimp only
          cases v.isLoading name with
          | true => exact hrefl v
          | false =>
              have hbytes : Ends (Run.answer (s.image name) v) (fun _ v' => v' = v) (R v) :=
                Ends.answer (fun _ _ => rfl) (hrefl v)
              refine hbytes.bind fun bytes v' hsame => ?_
              subst hsame
              have hloaded := hload bytes v' fun name version u => ih name version u
              refine (ends_iff.2 hloaded).bind fun id v hv => ?_
              refine (checkVersion_spec hv name version id).imp fun _ v'' hsame => ?_
              rw [hsame]
              exact hv

/-- A request to a searcher acts through public operations. -/
theorem reaches_resolveWithin (s : Searcher) (depth : Nat) (name : String) (version : Version)
    (v : Vault) : v.Reaches (stateAfter (s.resolveWithin depth name version v)) :=
  related_resolveWithin .refl (fun bytes v hresolve => .load bytes hresolve (.refl v)) s depth name
    version v

/-- A request to a new searcher acts through public operations. -/
theorem reaches_resolve (s : Searcher) (name : String) (version : Version) (v : Vault) :
    v.Reaches (stateAfter (s.resolve name version v)) :=
  reaches_resolveWithin s s.depth name version v

/-- A load with a searcher is a public operation, whatever comes of it. -/
theorem reaches_load (s : Searcher) (bytes : Wire.Bytes) (v : Vault) :
    v.Reaches (stateAfter (s.load bytes v)) :=
  .load bytes (reaches_resolve s) (.refl v)

/-! ## Disposal -/

/-- A change of objects and frames is safe if it keeps the heap in order. -/
theorem Safe.of_alike {v v' : Vault} (hs : v.Sound) (h : v.Alike v')
    (ho : v.Orderly → v'.Orderly) : v.Safe v' :=
  ⟨hs.congr h.classes h.modules h.tokens, .of_eq h.classes h.modules h.tokens, ho, h.loading⟩

/-- Disposing of a module is safe. -/
theorem Sound.disposeModule {v : Vault} (hs : v.Sound) (id : ModuleId) :
    Ends (Run.disposeModule id v) (fun _ => v.Safe) v.Safe := by
  unfold Run.disposeModule
  refine Ends.get ?_
  cases hm : v.module? id with
  | none => exact Safe.refl hs
  | some m =>
      have hmem : m ∈ v.modules.toList := Array.mem_toList_iff.2 (Array.mem_of_find?_eq_some hm)
      have hid : m.id = id := by simpa using Array.find?_some hm
      have hcore := (hs.numbers m hmem).1
      rw [hid] at hcore
      have hrest : (v.modules.filter (·.id ≠ id)).toList ⊆ v.modules.toList := by
        rw [Array.toList_filter]
        exact List.filter_sublist.subset
      refine ⟨hs.release hrest hcore fun m' hm' => ?_,
        (Keeps.forget hrest).release hs.arena (Or.inl ⟨m, hmem, hid⟩), fun ho => ?_, rfl⟩
      · rw [Array.toList_filter, List.mem_filter] at hm'
        simpa using hm'.2
      · have hforgot : ({ v with modules := v.modules.filter (·.id ≠ id) } : Vault).Orderly :=
          ho.congr rfl fun _ _ hc _ => hc
        exact hforgot.release hs.arena id

/-- The modules of a vault are removed one after another. -/
theorem Sound.releaseAll {v : Vault} (hs : v.Sound) {ms : List Module}
    (hms : ms ⊆ v.modules.toList) :
    v.Safe (ms.foldr (fun m (w : Vault) => w.release m.id) { v with modules := #[] }) ∧
      (ms.foldr (fun m (w : Vault) => w.release m.id) { v with modules := #[] }).modules = #[] := by
  induction ms with
  | nil =>
      have hnone : (#[] : Array Module).toList ⊆ v.modules.toList := List.nil_subset _
      have hspares : Spares (IsKept #[]) v.classes v.classes := .refl _ _
      exact ⟨⟨hs.step hs.toStored (Nat.le_refl _) hnone hspares, Keeps.forget hnone,
        fun ho => ho.congr rfl fun _ _ hc _ => hc, rfl⟩, rfl⟩
  | cons m ms ih =>
      obtain ⟨hsafe, hempty⟩ := ih fun m' hm' => hms (by simp [hm'])
      have hmem : m ∈ v.modules.toList := hms (by simp)
      refine ⟨⟨hsafe.sound.release (List.Subset.refl _) (hs.numbers m hmem).1 ?_,
        hsafe.keeps.release hsafe.sound.arena (Or.inl ⟨m, hmem, rfl⟩),
        fun ho => (hsafe.orderly ho).release hsafe.sound.arena m.id, hsafe.loading⟩, hempty⟩
      rw [hempty]
      simp

/-- A cleared vault has no modules. -/
theorem modules_cleared {v : Vault} (hs : v.Sound) : v.cleared.modules = #[] := by
  have hempty := (hs.releaseAll (List.Subset.refl _)).2
  rw [Array.foldr_toList] at hempty
  exact hempty

/-- Clearing a vault is safe. -/
theorem Sound.cleared {v : Vault} (hs : v.Sound) : v.Safe v.cleared := by
  have hsafe := (hs.releaseAll (List.Subset.refl _)).1
  rw [Array.foldr_toList] at hsafe
  exact hsafe.trans (.of_alike hsafe.sound ⟨rfl, rfl, rfl, rfl⟩ fun ho => ho.freeMortals _ _)

/-- The first disposal of a vault clears it and then looks for leaks, if it does. -/
theorem dispose_eq {v : Vault} (h : v.disposed = none) : Run.dispose v =
    if v.cleared.config.heap.checkLeaks ∧ v.cleared.heap.stats.aliveObjects ≠ 1 then
      .error (.heap (.leakDetected v.cleared.heap.stats.aliveObjects 1))
        { v.cleared with disposed := some v.cleared.report }
    else .ok v.cleared.report { v.cleared with disposed := some v.cleared.report } := by
  unfold Run.dispose
  rw [get_bind, h]
  refine bind_of_eq_ok (x := set _) rfl ?_
  cases v.cleared.config.heap.checkLeaks with
  | false => rfl
  | true =>
      unfold Heap.checkAlive sentinelCount
      by_cases halive : v.cleared.heap.stats.aliveObjects = 1
      · simp only [halive, if_true, ne_eq, not_true_eq_false, and_false, if_false]
        rfl
      · simp only [halive, if_false, ne_eq, not_false_eq_true, and_self, if_true]
        rfl

/-- A vault is cleared when it is disposed for the first time. -/
theorem dispose_ends {v : Vault} {E : Vault → Prop} (hagain : v.disposed ≠ none → E v)
    (hfirst : v.disposed = none → E { v.cleared with disposed := some v.cleared.report }) :
    Ends (Run.dispose v) (fun _ => E) E := by
  cases hdisposed : v.disposed with
  | some report =>
      unfold Run.dispose
      rw [get_bind, hdisposed]
      exact hagain (by simp [hdisposed])
  | none =>
      -- the vault counts as disposed before the check for leaks, so failing it changes nothing
      rw [dispose_eq hdisposed]
      split <;> exact hfirst hdisposed

/-- Disposing of a vault is safe. -/
theorem Sound.dispose {v : Vault} (hs : v.Sound) :
    Ends (Run.dispose v) (fun _ => v.Safe) v.Safe := by
  have hcleared := hs.cleared
  refine dispose_ends (fun _ => .refl hs) fun _ => ?_
  exact hcleared.trans (.of_alike hcleared.sound ⟨rfl, rfl, rfl, rfl⟩ fun ho =>
    ho.congr rfl fun _ _ hc _ => hc)

/-! ## Soundness -/

/-- An operation on objects and frames ends after a row of their changes. -/
theorem Tends.of_steady {α : Type} {run : Run α} (hrun : run.Steady) (v : Vault) :
    v.Tends (stateAfter (run v)) := ends_iff.1 (hrun v)

/-- Operations other than disposals change objects and frames, or the registry. -/
theorem after_cases (operation : Operation) (v : Vault) :
    v.Tends (operation.after v) ∨ (∃ registry, operation.after v = { v with registry }) ∨
      (∃ id, operation = .disposeModule id) ∨ operation = .dispose := by
  cases operation with
  | allocate => exact Or.inl (.of_steady (Run.allocate_calm _).steady v)
  | allocateImmortal => exact Or.inl (.of_steady (Run.allocateImmortal_calm _).steady v)
  | free => exact Or.inl (.of_steady (Run.free_calm _).steady v)
  | setSlot => exact Or.inl (.of_steady (Run.setSlot_calm _ _ _).steady v)
  | setField => exact Or.inl (.of_steady (Run.setField_calm _ _ _).steady v)
  | collect => exact Or.inl (.of_steady Run.collect_calm.steady v)
  | box => exact Or.inl (.of_steady (Run.box_calm _).steady v)
  | newArray => exact Or.inl (.of_steady (Run.newArray_calm _ _).steady v)
  | arrayGet => exact Or.inl (.of_steady (Run.arrayGet_calm _ _).steady v)
  | arraySet => exact Or.inl (.of_steady (Run.arraySet_calm _ _ _).steady v)
  | pushFrame => exact Or.inl (.of_steady (Run.pushFrame_steady _ _) v)
  | popFrame => exact Or.inl (.of_steady (Run.popFrame_steady _) v)
  | changeFrame => exact Or.inl (.of_steady (Run.changeFrame_steady _ _) v)
  | throwException => exact Or.inl (.of_steady (Run.throwException_steady _ _) v)
  | throwMessage => exact Or.inl (.of_steady (Run.throwMessage_steady _ _ _) v)
  | throwFault => exact Or.inl (.of_steady (Run.throwFault_steady _ _) v)
  | callBuiltin => exact Or.inl (.of_steady (Run.callBuiltin_steady _ _ _) v)
  | invokeNative => exact Or.inl (.of_steady (Run.invokeNative_steady _ _ _) v)
  | useRegistry => exact Or.inr (Or.inl ⟨_, rfl⟩)
  | disposeModule id => exact Or.inr (Or.inr (Or.inl ⟨id, rfl⟩))
  | dispose => exact Or.inr (Or.inr (Or.inr rfl))

/-- Every operation is safe. -/
theorem Sound.operate {v : Vault} (hs : v.Sound) (operation : Operation) :
    v.Safe (operation.after v) := by
  rcases after_cases operation v with htends | ⟨registry, hafter⟩ | ⟨id, rfl⟩ | rfl
  · exact .of_alike hs htends.alike htends.orderly
  · rw [hafter]
    exact .of_alike hs ⟨rfl, rfl, rfl, rfl⟩ fun ho => ho.congr rfl fun _ _ hc _ => hc
  · exact ends_iff.1 (hs.disposeModule id)
  · exact ends_iff.1 hs.dispose

/-- Whatever a sound vault becomes, it is safe. -/
theorem Reaches.safe {v w : Vault} (h : v.Reaches w) (hs : v.Sound) : v.Safe w := by
  induction h with
  | refl => exact Safe.refl hs
  | operate operation _ ih => exact (ih hs).trans ((ih hs).sound.operate operation)
  | load bytes _ _ ihresolve ih =>
      -- what the resolver does to any vault is itself a run of public operations
      have hresolve : Resolver.Safe _ := fun name version u hu =>
        ends_iff.2 (ihresolve name version u hu)
      have hloaded := (loadImage_spec hresolve (ih hs).sound bytes).imp fun _ _ h => h.1
      exact (ih hs).trans (ends_iff.1 hloaded)

/-- The resolver of a searcher is safe, because what it does is again a load. -/
theorem resolveWithin_safe (s : Searcher) (depth : Nat) : (s.resolveWithin depth).Safe :=
  fun name version v hs => ends_iff.2 ((reaches_resolveWithin s depth name version v).safe hs)

/-- The resolver of a searcher is safe. -/
theorem resolve_safe (s : Searcher) : s.resolve.Safe := resolveWithin_safe s s.depth

/-- A new vault has the predefined classes. -/
theorem installed_create {config : VaultConfig} {registry : NativeRegistry} {v : Vault}
    (h : create config registry = .ok v) :
    CoreType.install { lastModule := CoreType.owner } = .ok (v.tokens, v.classes) := by
  obtain ⟨_, _, _, _, hinstall, _, rfl⟩ := create_eq_ok h
  exact hinstall

/-- A new vault has no modules. -/
theorem create_bare {config : VaultConfig} {registry : NativeRegistry} {v : Vault}
    (h : create config registry = .ok v) : v.modules = #[] ∧ v.loading = [] := by
  obtain ⟨_, _, _, _, _, _, rfl⟩ := create_eq_ok h
  exact ⟨rfl, rfl⟩

/-- A new vault is sound. -/
theorem sound_create {config : VaultConfig} {registry : NativeRegistry} {v : Vault}
    (h : create config registry = .ok v) : v.Sound := by
  have hinstall := installed_create h
  have hinstalled := CoreType.install_spec hinstall
  have hnone := (create_bare h).1
  refine ⟨hinstalled.toStored, Nat.le_of_eq (by rw [hinstalled.last]),
    CoreType.install_entries hinstall, ?_, ?_, ?_⟩ <;> simp [hnone]

/-- Every reachable vault is sound. -/
theorem Reachable.sound {v : Vault} (hv : v.Reachable) : v.Sound := by
  obtain ⟨config, registry, v₀, hcreated, hreaches⟩ := hv
  exact (hreaches.safe (sound_create hcreated)).sound

/-- The heap of every reachable vault is orderly. -/
theorem Reachable.orderly {v : Vault} (hv : v.Reachable) : v.Orderly := by
  obtain ⟨config, registry, v₀, hcreated, hreaches⟩ := hv
  exact (hreaches.safe (sound_create hcreated)).orderly (orderly_create hcreated)

/-- Between public operations nothing is being loaded. -/
theorem Reachable.idle {v : Vault} (hv : v.Reachable) : v.loading = [] := by
  obtain ⟨config, registry, v₀, hcreated, hreaches⟩ := hv
  rw [(hreaches.safe (sound_create hcreated)).loading]
  exact (create_bare hcreated).2

end Vault

end VaultKernel
