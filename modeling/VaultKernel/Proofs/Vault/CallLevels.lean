import VaultKernel.Proofs.Arena.Recycling
import VaultKernel.Proofs.Vault.CallChains
import VaultKernel.Proofs.Vault.Disposal

/-!
# Levels of frames

A frame is pushed onto a living one and takes the next level. Frames are removed in any order, so
the caller of a living frame may be gone and another frame in its slot; as the new frame has another
handle, the levels along a chain of callers go down one by one and every chain ends (`Levelled`).
`Proceeds` are the runs in which this is so: slots and generations stay in 32 bits, and whoever
changes a frame leaves its caller and its level alone. The main statement is `frames_levelled`.
Without the bound on generations it fails: a frame that comes and goes in the slot of a caller, as
often as a word can tell, makes callers go round in a circle (`afterAll_circle`).
-/

namespace VaultKernel

open Arena

/-! ## Frames in their arena -/

namespace Arena

variable {frames : Arena Frame} {ref : FrameRef} {f : Frame}

/-- The frames tell their levels by their callers. -/
structure Levelled (frames : Arena Frame) : Prop extends HeldBy Frame.owner frames where
  sound : frames.Sound
  outermost : ∀ {ref f}, frames.get? ref = some f → f.parent = none → f.level = 0
  /-- The handle of a caller stays its own, also when it is gone. -/
  issued : ∀ {ref f p}, frames.get? ref = some f → f.parent = some p → frames.Issued p
  deeper : ∀ {ref f p g}, frames.get? ref = some f → f.parent = some p → frames.get? p = some g →
    f.level.toNat = g.level.toNat + 1

/-- A frame that is there was handed out. -/
theorem issued_of_get? (hf : frames.get? ref = some f) : frames.Issued ref := by
  obtain ⟨owner, he⟩ := get?_eq_some_iff.1 hf
  exact .of_entry he

/-- There are no levels to be wrong without frames. -/
theorem Levelled.empty : Levelled {} := by
  have hnone : ∀ ref, ({} : Arena Frame).get? ref = none := by simp [get?, entry?_eq, generation?]
  refine ⟨.empty, .empty, ?_, ?_, ?_⟩ <;> simp [hnone]

/-- A new frame is one level above its caller, which is there. -/
theorem Levelled.allocate (h : frames.Levelled) (hroom : frames.HasRoom)
    (houtermost : f.parent = none → f.level = 0)
    (hcalled : ∀ p, f.parent = some p → ∃ g, frames.get? p = some g ∧
      f.level.toNat = g.level.toNat + 1) :
    (frames.allocate Frame.owner f).2.Levelled := by
  have hall := allocate_spec h.sound hroom Frame.owner f
  have hcases : ∀ {q e}, (frames.allocate Frame.owner f).2.get? q = some e →
      q = (frames.allocate Frame.owner f).1 ∧ e = f ∨ frames.get? q = some e := by
    intro q e he
    obtain ⟨owner, he⟩ := get?_eq_some_iff.1 he
    rcases hall.entry?_cases he with ⟨hq, he⟩ | he
    · cases he
      exact Or.inl ⟨hq, rfl⟩
    · exact Or.inr (get?_eq_some_iff.2 ⟨owner, he⟩)
  have hissued : ∀ {q e p}, (frames.allocate Frame.owner f).2.get? q = some e →
      e.parent = some p → frames.Issued p := by
    intro q e p he hp
    rcases hcases he with ⟨_, rfl⟩ | he
    · obtain ⟨g, hg, _⟩ := hcalled p hp
      exact issued_of_get? hg
    · exact h.issued he hp
  refine ⟨h.toHeldBy.allocate f, h.sound.allocate hroom _ f, fun he hnone => ?_, fun he hp => ?_,
    fun he hp hg => ?_⟩
  · rcases hcases he with ⟨_, rfl⟩ | he
    · exact houtermost hnone
    · exact h.outermost he hnone
  · exact (hall.extends _ (hissued he hp)).1
  · -- the handle of a caller was issued before, so the new frame is no caller
    have hcaller := (hcases hg).resolve_left fun hnew => hall.not_issued (hnew.1 ▸ hissued he hp)
    rcases hcases he with ⟨_, rfl⟩ | he
    · obtain ⟨g', hg', hlevel⟩ := hcalled _ hp
      cases hcaller.symm.trans hg'
      exact hlevel
    · exact h.deeper he hp hcaller

/-- Removing a frame keeps the levels, as long as its generation does not run over. -/
theorem Levelled.remove (h : frames.Levelled)
    (hbound : frames.contains ref → ref.generation.toNat + 1 < 4294967296) :
    (frames.remove ref).2.Levelled := by
  by_cases hlive : frames.contains ref
  · obtain ⟨e, he⟩ := contains_iff.1 hlive
    obtain ⟨hv, hsound⟩ := remove_spec h.sound he
    have hold : ∀ {q f}, (frames.remove ref).2.get? q = some f → frames.get? q = some f := by
      intro q f hf
      rw [get?, hv.entry?_eq] at hf
      split at hf
      · cases hf
      · exact hf
    refine ⟨h.toHeldBy.remove ref, hsound, fun hf => h.outermost (hold hf),
      fun hf hp => ?_, fun hf hp hg => h.deeper (hold hf) hp (hold hg)⟩
    refine hv.issued (fun g hg => ?_) (h.issued (hold hf) hp)
    cases (entry?_eq_some_iff.1 he).1.symm.trans hg
    exact hbound hlive
  · rw [remove_of_not_contains hlive]
    exact h

/-- Rewriting a frame keeps the levels, if its caller and its level stay. -/
theorem Levelled.modify (h : frames.Levelled) {g : Frame → Frame}
    (hg : ∀ f, frames.get? ref = some f → (g f).parent = f.parent ∧ (g f).level = f.level) :
    (frames.modify ref g).Levelled := by
  have hold : ∀ {q f'}, (frames.modify ref g).get? q = some f' →
      ∃ f, frames.get? q = some f ∧ f'.parent = f.parent ∧ f'.level = f.level := by
    intro q f' hf'
    rw [get?, entry?_modify] at hf'
    split at hf'
    · next heq =>
        obtain ⟨e', he', rfl⟩ := Option.map_eq_some_iff.1 hf'
        obtain ⟨e, he, rfl⟩ := Option.map_eq_some_iff.1 he'
        have hf : frames.get? q = some e.2 := get?_eq_some_iff.2 ⟨e.1, he⟩
        exact ⟨e.2, hf, hg e.2 (heq ▸ hf)⟩
    · exact ⟨f', hf', rfl, rfl⟩
  refine ⟨h.toHeldBy.modify ref g, h.sound.modify ref g, fun hf' hnone => ?_, fun hf' hp => ?_,
    fun hf' hp hg' => ?_⟩
  · obtain ⟨f, hf, hparent, hlevel⟩ := hold hf'
    rw [hlevel]
    exact h.outermost hf (hparent ▸ hnone)
  · obtain ⟨f, hf, hparent, _⟩ := hold hf'
    exact (issued_modify frames ref _ g).2 (h.issued hf (hparent ▸ hp))
  · obtain ⟨f, hf, hparent, hlevel⟩ := hold hf'
    obtain ⟨f₂, hf₂, _, hlevel₂⟩ := hold hg'
    rw [hlevel, hlevel₂]
    exact h.deeper hf (hparent ▸ hp) hf₂

/-- Removing all frames keeps the levels. -/
theorem Levelled.removeOwner (h : frames.Levelled) :
    (frames.removeOwner Frame.owner).2.Levelled := by
  have hnone : ∀ ref, (frames.removeOwner Frame.owner).2.get? ref = none := fun ref => by
    rw [get?, h.toHeldBy.entry?_removeOwner]
    rfl
  refine ⟨h.toHeldBy.removeOwner, (removeOwner_spec h.sound _).2, ?_, ?_, ?_⟩ <;> simp [hnone]

end Arena

/-! ## Regular operations -/

/-- A push finds a slot for its frame, a removal does not vacate its slot for the 2 ^ 32nd time, and
a change of a frame keeps its caller and its level. -/
def Operation.Regular (v : Vault) : Operation → Prop
  | .pushFrame _ _ => v.frames.HasRoom
  | .popFrame ref => v.frames.contains ref → ref.generation.toNat + 1 < 4294967296
  | .changeFrame ref g => ∀ f, v.frame? ref = some f →
      (g f).parent = f.parent ∧ (g f).level = f.level
  | _ => True

/-- A frame is pushed or removed. -/
def Operation.IsCall : Operation → Prop
  | .pushFrame _ _ | .popFrame _ => True
  | _ => False

namespace Vault

variable {v w : Vault}

/-- One vault becomes another one through regular operations, also within loads. -/
inductive Proceeds : Vault → Vault → Prop where
  | refl (v : Vault) : Proceeds v v
  | operate {v w : Vault} (operation : Operation) :
      operation.Regular w → Proceeds v w → Proceeds v (operation.after w)
  | load {v w : Vault} {resolve : Resolver} (bytes : Wire.Bytes) :
      (∀ name version u, Proceeds u (stateAfter (resolve name version u))) →
      Proceeds v w → Proceeds v (stateAfter (Run.loadImage resolve bytes w))

/-- Regular operations are operations. -/
theorem Proceeds.reaches (h : v.Proceeds w) : v.Reaches w := by
  induction h with
  | refl => exact .refl _
  | operate operation _ _ ih => exact .operate operation ih
  | load bytes _ _ ihresolve ih => exact .load bytes ihresolve ih

/-- Levels count callers, and the frames of the runtime are there until the vault is disposed. -/
structure Levelled (v : Vault) : Prop where
  frames : v.frames.Levelled
  standing : ∀ e ∈ v.systemFrames, v.frames.contains e.2
  original : v.disposed = none → v.systemFrames = Frame.installSystem.2

/-- The frames of the runtime have no callers. -/
theorem levelled_installSystem : Frame.installSystem.1.Levelled ∧
    ∀ e ∈ Frame.installSystem.2, Frame.installSystem.1.contains e.2 := by
  have hfew : Frame.installSystem.1.slots.size ≤ 4294967296 := by decide +kernel
  revert hfew
  unfold Frame.installSystem
  refine List.foldlRecOn (motive := fun state : Arena Frame × List (String × FrameRef) =>
    state.1.slots.size ≤ 4294967296 → state.1.Levelled ∧ ∀ e ∈ state.2, state.1.contains e.2)
    Frame.systemNames _ (fun _ => ⟨.empty, by simp⟩) fun state hstate name _ hfew => ?_
  have hroom := HasRoom.of_allocate hfew
  have hstate := hstate (Nat.le_trans (size_slots_le_allocate _ _ _) hfew)
  have hall := allocate_spec hstate.1.sound hroom Frame.owner
    { parent := none, method := .system name : Frame }
  refine ⟨hstate.1.allocate hroom (fun _ => rfl) (fun p hp => by cases hp), fun e he => ?_⟩
  rcases List.mem_append.1 he with he | he
  · obtain ⟨_, hlive⟩ := contains_iff.1 (hstate.2 e he)
    exact contains_iff.2 ⟨_, hall.extends.entry? hlive⟩
  · rw [List.mem_singleton.1 he]
    exact contains_iff.2 ⟨_, hall.entry?_self⟩

/-- A new vault has the frames of the runtime, none of which has a caller. -/
theorem levelled_create {config : VaultConfig} {registry : NativeRegistry}
    (h : create config registry = .ok v) : v.Levelled := by
  obtain ⟨_, _, _, _, _, _, rfl⟩ := create_eq_ok h
  obtain ⟨hframes, hstanding⟩ := levelled_installSystem
  exact ⟨hframes, hstanding, fun _ => rfl⟩

/-- Whatever does not touch the frames keeps their levels. -/
theorem Levelled.congr (h : v.Levelled) (hframes : w.frames = v.frames)
    (hsystem : w.systemFrames = v.systemFrames) (hdisposed : w.disposed = v.disposed) :
    w.Levelled := by
  refine ⟨?_, ?_, ?_⟩
  · rw [hframes]
    exact h.frames
  · rw [hsystem, hframes]
    exact h.standing
  · rw [hdisposed, hsystem]
    exact h.original

end Vault

namespace Run

variable {v : Vault} {α β : Type}

/-- Whatever comes of the run, levels count callers after it if they did before. -/
def KeepsLevels (run : Run α) : Prop :=
  ∀ v : Vault, v.Levelled → Ends (run v) (fun _ => Vault.Levelled) Vault.Levelled

/-- An operation that leaves the frames alone keeps the levels. -/
theorem Calm.keepsLevels {run : Run α} (h : run.Calm) : run.KeepsLevels := by
  have hkeeps : ∀ v w : Vault, v.Levelled → v.Stirs w → w.Levelled := by
    intro v w hv hstirs
    rw [hstirs.rest]
    exact hv.congr rfl rfl rfl
  exact fun v hv => (h v).mono (fun _ w => hkeeps v w hv) fun w => hkeeps v w hv

/-- Runs that keep the levels can follow one another. -/
theorem KeepsLevels.bind {x : Run α} {f : α → Run β} (hx : x.KeepsLevels)
    (hf : ∀ a, (f a).KeepsLevels) : (x >>= f).KeepsLevels := fun v hv =>
  (hx v hv).bind fun a w hw => hf a w hw

/-- A changed frame keeps its level if the change leaves it and the caller alone. -/
theorem changeFrame_levelled (hv : v.Levelled) {ref : FrameRef} {g : Frame → Frame}
    (hg : ∀ f, v.frame? ref = some f → (g f).parent = f.parent ∧ (g f).level = f.level) :
    Ends (changeFrame ref g v) (fun _ => Vault.Levelled) Vault.Levelled := by
  refine Vault.Levelled.mk (hv.frames.modify hg) (fun e he => ?_) hv.original
  rw [contains_modify]
  exact hv.standing e he

/-- A pushed frame has the level after that of its caller. -/
theorem pushFrame_levelled (hv : v.Levelled) (hroom : v.frames.HasRoom)
    (parent : Option FrameRef) (method : FrameMethod) :
    Ends (pushFrame parent method v) (fun _ => Vault.Levelled) Vault.Levelled := by
  have hpushed : ∀ f : Frame, (f.parent = none → f.level = 0) → (∀ p, f.parent = some p →
      ∃ g, v.frame? p = some g ∧ f.level.toNat = g.level.toNat + 1) →
      Vault.Levelled { v with frames := (v.frames.allocate Frame.owner f).2 } := by
    intro f houtermost hcalled
    have hall := allocate_spec hv.frames.sound hroom Frame.owner f
    refine ⟨hv.frames.allocate hroom houtermost hcalled, fun e he => ?_, hv.original⟩
    obtain ⟨_, hlive⟩ := contains_iff.1 (hv.standing e he)
    exact contains_iff.2 ⟨_, hall.extends.entry? hlive⟩
  unfold pushFrame
  cases parent with
  | none => exact hpushed _ (fun _ => rfl) nofun
  | some p =>
      refine Ends.askThen (fun level hlevel => ?_) hv
      obtain ⟨g, hg, hnext⟩ := Vault.calleeLevel_eq_ok hlevel
      refine hpushed _ nofun fun p' hp' => ?_
      cases hp'
      exact ⟨g, hg, hnext⟩

/-- Popping a frame keeps the levels, as long as its generation does not run over. -/
theorem popFrame_levelled (hv : v.Levelled) {ref : FrameRef}
    (hbound : v.frames.contains ref → ref.generation.toNat + 1 < 4294967296) :
    Ends (popFrame ref v) (fun _ => Vault.Levelled) Vault.Levelled := by
  unfold popFrame
  refine Ends.get ?_
  split
  · exact hv
  · next hordinary =>
      have hpopped : Vault.Levelled { v with frames := (v.frames.remove ref).2 } := by
        refine ⟨hv.frames.remove hbound, fun e he => ?_, hv.original⟩
        refine contains_remove hv.frames.sound (fun heq => hordinary ?_) (hv.standing e he)
        exact List.any_eq_true.2 ⟨e, he, decide_eq_true heq⟩
      generalize v.frames.remove ref = removed at hpopped
      obtain ⟨_ | f, frames⟩ := removed
      · exact hv
      · exact hpopped

/-- Recording an exception leaves callers and levels alone. -/
theorem recordException_keepsLevels (ref : FrameRef) (value : ObjectRef) :
    KeepsLevels (recordException ref value) := by
  intro v hv
  refine Ends.askThen (fun trace _ => ?_) hv
  refine Ends.bind (changeFrame_levelled hv ?_) fun _ _ hw => ?_
  · exact fun f _ => ⟨rfl, rfl⟩
  · exact hw

/-- Throwing leaves callers and levels alone. -/
theorem throwException_keepsLevels (ref : FrameRef) (type : ClassRef) :
    KeepsLevels (throwException ref type) :=
  (allocate_calm type).keepsLevels.bind fun value =>
    (recordException_keepsLevels ref value).bind fun _ => (Calm.pure value).keepsLevels

/-- Throwing with a message leaves callers and levels alone. -/
theorem throwMessage_keepsLevels (ref : FrameRef) (type : ClassRef) (message : String) :
    KeepsLevels (throwMessage ref type message) := by
  unfold throwMessage
  refine Calm.get.keepsLevels.bind fun v => ?_
  cases v.fieldOffset type CoreType.messageField with
  | error _ => exact (Calm.throw _).keepsLevels
  | ok offset =>
      refine (allocate_calm type).keepsLevels.bind fun value => ?_
      refine (setSlot_calm value offset _).keepsLevels.bind fun _ => ?_
      exact (recordException_keepsLevels ref value).bind fun _ => (Calm.pure value).keepsLevels

/-- A fault leaves callers and levels alone. -/
theorem throwFault_keepsLevels (ref : FrameRef) (failure : Failure) :
    KeepsLevels (throwFault ref failure) := by
  unfold throwFault
  split
  · exact throwMessage_keepsLevels ref _ _
  · exact (Calm.throw _).keepsLevels

/-- Swallowing a failure leaves the frames alone. -/
theorem swallow_keepsLevels (failure : Failure) : KeepsLevels (swallow failure) := by
  cases failure with
  | overflow => exact (Calm.throw _).keepsLevels
  | _ => exact (Calm.pure _).keepsLevels

/-- Calling a built-in function leaves callers and levels alone. -/
theorem callBuiltin_keepsLevels (function : Builtin) (frame : FrameRef) (args : NativeArguments) :
    KeepsLevels (callBuiltin function frame args) := by
  intro v hv
  have hbody := (builtinBody_calm function args).keepsLevels v hv
  unfold callBuiltin
  cases hrun : builtinBody function args v with
  | ok outcome w =>
      rw [hrun] at hbody
      exact hbody
  | error failure w =>
      rw [hrun] at hbody
      cases failure with
      | fault fault =>
          have hthrown := throwFault_keepsLevels frame (.fault fault) w hbody
          dsimp only
          cases hthrow : throwFault frame (.fault fault) w with
          | ok _ w' =>
              rw [hthrow] at hthrown
              exact hthrown
          | error failure w' =>
              rw [hthrow] at hthrown
              exact swallow_keepsLevels failure w' hthrown
      | _ => exact swallow_keepsLevels _ w hbody

/-- Calling a native method leaves callers and levels alone. -/
theorem invokeNative_keepsLevels (m : MethodRef) (frame : FrameRef) (args : NativeArguments) :
    KeepsLevels (invokeNative m frame args) := by
  unfold invokeNative
  refine Calm.get.keepsLevels.bind fun v => ?_
  cases v.method? m with
  | none => exact (Calm.throw _).keepsLevels
  | some method =>
      dsimp only
      split
      · exact callBuiltin_keepsLevels _ _ _
      · exact (Calm.throw _).keepsLevels
      · exact (Calm.throw _).keepsLevels
      · exact (Calm.throw _).keepsLevels

end Run

namespace Vault

variable {v w v₀ : Vault} {ref : FrameRef} {f : Frame} {chain : List (FrameRef × Frame)}

/-! ## Runs -/

/-- Disposing of a module leaves the frames alone. -/
theorem Levelled.disposeModule (hv : v.Levelled) (id : ModuleId) :
    (stateAfter (Run.disposeModule id v)).Levelled := by
  refine ends_iff.1 (Ends.get ?_)
  cases v.module? id with
  | none => exact hv
  | some m => exact hv.congr rfl rfl rfl

/-- Releasing modules leaves the frames alone. -/
theorem frames_releaseAll (ms : Array Module) :
    (ms.foldr (fun m (w : Vault) => w.release m.id) v).frames = v.frames := by
  rw [← Array.foldr_toList]
  induction ms.toList with
  | nil => rfl
  | cons m ms ih => exact ih

/-- Disposing of the vault removes all frames. -/
theorem Levelled.dispose (hv : v.Levelled) : (stateAfter (Run.dispose v)).Levelled := by
  refine ends_iff.1 (dispose_ends (fun _ => hv) fun _ => ⟨?_, nofun, nofun⟩)
  show (Vault.frames _ |>.removeOwner Frame.owner).2.Levelled
  rw [frames_releaseAll]
  exact hv.frames.removeOwner

/-- A regular operation keeps the levels. -/
theorem Levelled.operate (hv : v.Levelled) {operation : Operation} (h : operation.Regular v) :
    (operation.after v).Levelled := by
  cases operation with
  | allocate type => exact ends_iff.1 ((Run.allocate_calm type).keepsLevels v hv)
  | allocateImmortal type => exact ends_iff.1 ((Run.allocateImmortal_calm type).keepsLevels v hv)
  | free object => exact ends_iff.1 ((Run.free_calm object).keepsLevels v hv)
  | setSlot object offset value =>
      exact ends_iff.1 ((Run.setSlot_calm object offset value).keepsLevels v hv)
  | setField object name value =>
      exact ends_iff.1 ((Run.setField_calm object name value).keepsLevels v hv)
  | collect => exact ends_iff.1 (Run.collect_calm.keepsLevels v hv)
  | box value => exact ends_iff.1 ((Run.box_calm value).keepsLevels v hv)
  | newArray element size => exact ends_iff.1 ((Run.newArray_calm element size).keepsLevels v hv)
  | arrayGet array index => exact ends_iff.1 ((Run.arrayGet_calm array index).keepsLevels v hv)
  | arraySet array index value =>
      exact ends_iff.1 ((Run.arraySet_calm array index value).keepsLevels v hv)
  | pushFrame parent method => exact ends_iff.1 (Run.pushFrame_levelled hv h parent method)
  | popFrame ref => exact ends_iff.1 (Run.popFrame_levelled hv h)
  | changeFrame ref g => exact ends_iff.1 (Run.changeFrame_levelled hv h)
  | throwException ref type => exact ends_iff.1 (Run.throwException_keepsLevels ref type v hv)
  | throwMessage ref type message =>
      exact ends_iff.1 (Run.throwMessage_keepsLevels ref type message v hv)
  | throwFault ref failure => exact ends_iff.1 (Run.throwFault_keepsLevels ref failure v hv)
  | callBuiltin function ref args =>
      exact ends_iff.1 (Run.callBuiltin_keepsLevels function ref args v hv)
  | invokeNative method ref args =>
      exact ends_iff.1 (Run.invokeNative_keepsLevels method ref args v hv)
  | useRegistry f => exact hv.congr rfl rfl rfl
  | disposeModule id => exact hv.disposeModule id
  | dispose => exact hv.dispose

/-- No change of a load touches a frame. -/
theorem LoadStep.levelled (h : v.LoadStep w) (hv : v.Levelled) : w.Levelled := by
  cases h with
  | staged h =>
      rw [h.rest]
      exact hv.congr rfl rfl rfl
  | _ => exact hv.congr rfl rfl rfl

/-- Loads do not touch the frames, whatever their resolver does to them. -/
theorem admits_levelled : Admits fun v w => v.Levelled → w.Levelled :=
  ⟨fun _ => id, fun huv hvw hu => hvw (huv hu), LoadStep.levelled⟩

/-- Levels count callers after every regular run. -/
theorem Proceeds.levelled (h : v.Proceeds w) (hs : v.Sound) (hv : v.Levelled) : w.Levelled := by
  induction h with
  | refl => exact hv
  | operate _ hregular _ ih => exact (ih hs hv).operate hregular
  | load bytes hresolve hproceeds ihresolve ih =>
      have hsafe : Resolver.Safe _ := fun name version u hu =>
        ends_iff.2 ((hresolve name version u).reaches.safe hu)
      exact admits_levelled.loadImage hsafe (fun name version u hu => ihresolve name version u hu)
        (hproceeds.reaches.safe hs).sound bytes (ih hs hv)

/-- A load with a searcher is regular. -/
theorem Proceeds.loadWith (h : v.Proceeds w) (s : Searcher) (bytes : Wire.Bytes) :
    v.Proceeds (stateAfter (s.load bytes w)) :=
  .load bytes (related_resolveWithin .refl (fun bytes u hresolve => .load bytes hresolve (.refl u))
    s s.depth) h

/-! ## Chains -/

/-- Every walk from caller to caller ends, because the levels go down. -/
theorem Levelled.exists_chain (hv : v.Levelled) (cursor : Option FrameRef) :
    ∃ chain gone, v.CallChain cursor chain gone := by
  have hwalk : ∀ n ref f, v.frame? ref = some f → f.level.toNat = n →
      ∃ chain gone, v.CallChain (some ref) chain gone := by
    intro n
    induction n using Nat.strong_induction_on with
    | _ n ih =>
        intro ref f hf hlevel
        suffices hcallers : ∃ chain gone, v.CallChain f.parent chain gone by
          obtain ⟨chain, gone, hchain⟩ := hcallers
          exact ⟨_, _, .frame hf hchain⟩
        cases hparent : f.parent with
        | none => exact ⟨_, _, .ended⟩
        | some p =>
            cases hp : v.frame? p with
            | none => exact ⟨_, _, .gone hp⟩
            | some g =>
                have hdeeper := hv.frames.deeper hf hparent hp
                exact ih g.level.toNat (by omega) p g hp rfl
  cases cursor with
  | none => exact ⟨_, _, .ended⟩
  | some ref =>
      cases hf : v.frame? ref with
      | none => exact ⟨_, _, .gone hf⟩
      | some f => exact hwalk _ ref f hf rfl

/-- The level of a frame is the number of its ancestors, if all of them are there. -/
theorem Levelled.length_eq (hv : v.Levelled) (h : v.CallChain (some ref) chain none)
    (hf : v.frame? ref = some f) : chain.length = f.level.toNat + 1 := by
  generalize hcursor : some ref = cursor at h
  generalize hgone : none = gone at h
  induction h generalizing ref f with
  | ended => cases hcursor
  | gone => cases hgone
  | @frame ref f' rest gone hf' hrest ih =>
      cases hcursor
      cases hf.symm.trans hf'
      subst hgone
      rw [List.length_cons]
      cases hparent : f'.parent with
      | none =>
          rw [hparent] at hrest
          cases hrest
          rw [hv.frames.outermost hf hparent]
          rfl
      | some p =>
          rw [hparent] at hrest
          cases hp : v.frame? p with
          | none =>
              cases hrest with
              | frame hp' => cases hp.symm.trans hp'
          | some g => rw [ih hp hparent.symm rfl, hv.frames.deeper hf hparent hp]

/-- Before its disposal a vault has the system frames that it began with. -/
theorem Levelled.systemFrame? (hv : v.Levelled) (hopen : v.disposed = none) {name : String}
    (hname : name ∈ Frame.systemNames) : ∃ ref, Frame.installSystem.2.lookup name = some ref ∧
      v.systemFrame? name = some ref ∧ v.frames.contains ref := by
  have hnamed : ∀ name ∈ Frame.systemNames, (Frame.installSystem.2.lookup name).isSome := by
    decide +kernel
  obtain ⟨ref, href⟩ := Option.isSome_iff_exists.1 (hnamed name hname)
  have hsystem : v.systemFrame? name = some ref := by
    rw [Vault.systemFrame?, hv.original hopen, href]
  obtain ⟨e, he, rfl⟩ := List.mem_map.1 (mem_of_lookup hsystem)
  exact ⟨e.2, href, hsystem, hv.standing e he⟩

/-- In every run in which frames get slots of their own, no slot is vacated for the 2 ^ 32nd time
and changes of a frame keep its caller and its level: a frame is one level above its caller as long
as both are there, every walk from caller to caller ends, the system frames are never removed before
the vault is disposed, and there is a trace of a frame exactly as long as all its ancestors are
there. The trace has an entry for each of them, as many as the level tells, and as many lines if no
title has a line feed of its own. -/
theorem frames_levelled {config : VaultConfig} {registry : NativeRegistry}
    (hcreated : create config registry = .ok v₀) (h : v₀.Proceeds v) :
    (∀ ref f p g, v.frame? ref = some f → f.parent = some p → v.frame? p = some g →
      f.level.toNat = g.level.toNat + 1) ∧
    (∀ ref, ∃ chain gone, v.CallChain (some ref) chain gone) ∧
    (v.disposed = none → ∀ name ∈ Frame.systemNames, ∃ ref,
      v₀.systemFrame? name = some ref ∧ v.systemFrame? name = some ref ∧ v.frames.contains ref) ∧
    ∀ ref, ((∃ text, v.stackTrace ref = .ok text) ↔
        ∀ a, v.Outward ref a → v.frames.contains a) ∧
      ∀ text, v.stackTrace ref = .ok text → ∃ f chain, v.frame? ref = some f ∧
        v.CallChain (some ref) chain none ∧ chain.length = f.level.toNat + 1 ∧
        text = String.join (chain.map fun c => "\tat " ++ v.frameTitle c.2 ++ "\n") ∧
        ((∀ c ∈ chain, '\n' ∉ (v.frameTitle c.2).toList) → text.toList.splitOn '\n' =
          chain.map (fun c => ("\tat " ++ v.frameTitle c.2).toList) ++ [[]]) := by
  have hv₀ := levelled_create hcreated
  have hv := h.levelled (sound_create hcreated) hv₀
  have hopen₀ : v₀.disposed = none := by
    obtain ⟨_, _, _, _, _, _, rfl⟩ := create_eq_ok hcreated
    rfl
  refine ⟨fun _ _ _ _ => hv.frames.deeper, fun ref => hv.exists_chain (some ref),
    fun hopen name hname => ?_, fun ref => ?_⟩
  · obtain ⟨ref, href, hsystem, hlive⟩ := hv.systemFrame? hopen hname
    refine ⟨ref, ?_, hsystem, hlive⟩
    rw [Vault.systemFrame?, hv₀.original hopen₀, href]
  · obtain ⟨chain, gone, hchain⟩ := hv.exists_chain (some ref)
    rw [← hchain.gone_eq_none_iff, hchain.stackTrace_eq]
    cases gone with
    | some p => simp
    | none =>
        refine ⟨by simp, fun text htext => ?_⟩
        cases htext
        cases hchain with
        | frame hf hrest =>
            exact ⟨_, _, hf, .frame hf hrest, hv.length_eq (.frame hf hrest) hf, rfl, splitOn_trace⟩

/-- A push into an arena with few slots is regular. -/
theorem regular_pushFrame (hfew : v.frames.slots.size ≤ 100) (parent : Option FrameRef)
    (method : FrameMethod) : (Operation.pushFrame parent method).Regular v :=
  Or.inr (by omega)

/-- A module is loaded, then a frame loses its caller, whose slot goes to another frame. -/
theorem frames_levelled_orphan : ∃ v₀ v : Vault, create {} {} = .ok v₀ ∧ v₀.Proceeds v ∧
    v.systemFrame? "#gc" = v₀.systemFrame? "#gc" ∧
    (∃ chain, v.CallChain (some ⟨6, 1⟩) chain none ∧ chain.length = 3) ∧
    (∃ f, v.frame? ⟨7, 0⟩ = some f ∧ f.parent = some ⟨6, 0⟩) ∧
    ¬ ∃ text, v.stackTrace ⟨7, 0⟩ = .ok text := by
  let main : Operation := .pushFrame (some ⟨0, 0⟩) (.system "main")
  let helper : Operation := .pushFrame (some ⟨5, 0⟩) (.system "helper")
  let leaf : Operation := .pushFrame (some ⟨6, 0⟩) (.system "leaf")
  have hrun : (create {} {}).toOption.any fun v₀ =>
      (hollowImage "library" []).encode.toOption.any fun bytes =>
      let loaded := stateAfter (Searcher.load {} bytes v₀)
      let v₁ := main.after loaded
      let v₂ := helper.after v₁
      let v₄ := (Operation.popFrame ⟨0, 0⟩).after
        ((Operation.popFrame ⟨6, 0⟩).after (leaf.after v₂))
      let v := helper.after v₄
      decide (loaded.frames.slots.size ≤ 100) && decide (v₁.frames.slots.size ≤ 100) &&
        decide (v₂.frames.slots.size ≤ 100) && decide (v₄.frames.slots.size ≤ 100) &&
        v.disposed.isNone && (v.frame? ⟨6, 1⟩).any (·.level = 2) &&
        (v.stackTrace ⟨6, 1⟩).toOption.isSome && !v.frames.contains ⟨6, 0⟩ &&
        (v.frame? ⟨7, 0⟩).any (·.parent = some ⟨6, 0⟩) := by
    decide +kernel
  obtain ⟨v₀, hcreated, hrun⟩ := (Option.any_eq_true _ _).1 hrun
  obtain ⟨bytes, _, hrun⟩ := (Option.any_eq_true _ _).1 hrun
  have hcreated := toOption_eq_some.1 hcreated
  simp only [Bool.and_eq_true, decide_eq_true_eq] at hrun
  obtain ⟨⟨⟨⟨⟨⟨⟨⟨h₀, h₁⟩, h₂⟩, h₄⟩, hopen⟩, hreused⟩, htrace⟩, hgone⟩, hcalled⟩ := hrun
  have hloaded := (Proceeds.refl v₀).loadWith {} bytes
  have hpushed := ((hloaded.operate main (regular_pushFrame h₀ _ _)).operate helper
    (regular_pushFrame h₁ _ _)).operate leaf (regular_pushFrame h₂ _ _)
  have hpopped := (hpushed.operate (.popFrame ⟨6, 0⟩) fun _ => by decide).operate
    (.popFrame ⟨0, 0⟩) fun _ => by decide
  have hproceeds := hpopped.operate helper (regular_pushFrame h₄ _ _)
  obtain ⟨_, _, hsystem, htraces⟩ := frames_levelled hcreated hproceeds
  obtain ⟨_, hbegan, hstays, _⟩ := hsystem (by simpa using hopen) "#gc" (by decide)
  obtain ⟨text, htext⟩ := Option.isSome_iff_exists.1 htrace
  obtain ⟨f, chain, hf, hchain, hlength, _⟩ := (htraces ⟨6, 1⟩).2 text (toOption_eq_some.1 htext)
  obtain ⟨g, hg, hparent⟩ := (Option.any_eq_true _ _).1 hcalled
  rw [hf] at hreused
  refine ⟨v₀, _, hcreated, hproceeds, hstays.trans hbegan.symm, ⟨chain, hchain, ?_⟩,
    ⟨g, hg, of_decide_eq_true hparent⟩, fun htrace => ?_⟩
  · rw [hlength, show f.level = 2 by simpa using hreused]
    rfl
  · have hlive := (htraces ⟨7, 0⟩).1.1 htrace ⟨6, 0⟩ (.single ⟨g, hg, of_decide_eq_true hparent⟩)
    rw [hlive] at hgone
    cases hgone

/-! ## Circles -/

/-- A frame without a caller that comes and goes. -/
def passing : Frame := { parent := none, method := .system "passing", level := 0 }

/-- The passing frame is pushed and removed `n` times, each time in the slot `i`, whose generation
is `g` at first. -/
def passes (i : Nat) : Nat → UInt32 → List Operation
  | 0, _ => []
  | n + 1, g => .pushFrame none passing.method :: .popFrame ⟨i, g⟩ :: passes i n (g + 1)

/-- A frame that passes is only pushed and removed. -/
theorem isCall_of_mem_passes {o : Operation} {i n : Nat} {g : UInt32} (ho : o ∈ passes i n g) :
    o.IsCall := by
  induction n generalizing g with
  | zero => cases ho
  | succ n ih =>
      rcases List.mem_cons.1 ho with rfl | ho
      · trivial
      · rcases List.mem_cons.1 ho with rfl | ho
        · trivial
        · exact ih ho

/-- The vault after several operations. -/
def afterAll (v : Vault) (operations : List Operation) : Vault :=
  operations.foldl (fun w o => o.after w) v

/-- Popping a living frame that is not one of the runtime removes it and does nothing else. -/
theorem after_popFrame (hordinary : ∀ e ∈ v.systemFrames, e.2 ≠ ref)
    (hlive : v.frames.contains ref) :
    (Operation.popFrame ref).after v = { v with frames := (v.frames.remove ref).2 } := by
  have hany : (v.systemFrames.any fun e => e.2 = ref) = false :=
    List.any_eq_false.2 fun e he => by simpa using hordinary e he
  obtain ⟨e, he⟩ := contains_iff.1 hlive
  have hremove : (v.frames.remove ref).1 = some e.2 := fst_remove he
  show stateAfter (Run.popFrame ref v) = _
  unfold Run.popFrame
  rw [get_bind, hany, if_neg Bool.false_ne_true]
  generalize v.frames.remove ref = removed at hremove ⊢
  obtain ⟨_, frames⟩ := removed
  cases hremove
  rfl

/-- Pushing onto a living frame stores the frame with the next level and does nothing else. -/
theorem after_pushFrame (hf : v.frame? ref = some f) (hlevel : f.level.toNat + 1 < 4294967296)
    (method : FrameMethod) : (Operation.pushFrame (some ref) method).after v =
      { v with frames := (v.frames.allocate Frame.owner
        { parent := some ref, method, level := f.level + 1 }).2 } := by
  have hcallee : v.calleeLevel ref = .ok (f.level + 1) := by
    rw [calleeLevel, frameOf_eq_ok.2 hf]
    exact if_pos hlevel
  show stateAfter (Run.pushFrame (some ref) method v) = _
  unfold Run.pushFrame
  dsimp only
  rw [ask_bind hcallee]
  rfl

/-- Passing frames leave nothing behind but the generation of their slot. -/
theorem afterAll_passes {i : Nat} {rest : List Nat} {g : UInt32} (hs : v.frames.Sound)
    (hfree : v.frames.free = i :: rest) (hg : v.frames.generation? i = some g)
    (hordinary : ∀ e ∈ v.systemFrames, e.2.index ≠ i) (n : Nat) :
    v.afterAll (passes i n g) = { v with frames := v.frames.turns Frame.owner passing n } := by
  induction n generalizing v g with
  | zero => rfl
  | succ n ih =>
      have hhandle := (allocate_of_free hfree Frame.owner passing).1
      rw [hg, Option.getD_some] at hhandle
      have hall := allocate_spec hs (Or.inl (by simp [hfree])) Frame.owner passing
      have hturn := turn_spec hs hfree Frame.owner passing
      rw [hhandle] at hall hturn
      have hpopped : (Operation.popFrame ⟨i, g⟩).after
          { v with frames := (v.frames.allocate Frame.owner passing).2 } =
          { v with frames := ((v.frames.allocate Frame.owner passing).2.remove ⟨i, g⟩).2 } :=
        after_popFrame (fun e he heq => hordinary e he (congrArg Handle.index heq))
          (contains_iff.2 ⟨_, hall.entry?_self⟩)
      have hstep : v.afterAll (passes i (n + 1) g) = afterAll ((Operation.popFrame ⟨i, g⟩).after
        { v with frames := (v.frames.allocate Frame.owner passing).2 }) (passes i n (g + 1)) := rfl
      rw [hstep, hpopped]
      refine (ih (v := { v with frames := _ }) hturn.sound (hturn.free_eq.trans hfree) ?_
        hordinary).trans ?_
      · rw [hturn.generations, if_pos rfl, hg]
        rfl
      · rw [turns, hhandle]

/-- The slot of a caller that is gone comes back to its generation, and then a frame that is pushed
onto the one that it called gets the handle of the caller. -/
theorem afterAll_circle {p q : FrameRef} {rest : List Nat} {g : UInt32} {n : Nat}
    (hs : v.frames.Sound) (hfree : v.frames.free = p.index :: rest)
    (hg : v.frames.generation? p.index = some g) (hn : g + UInt32.ofNat n = p.generation)
    (hordinary : ∀ e ∈ v.systemFrames, e.2.index ≠ p.index) (hf : v.frame? q = some f)
    (hlevel : f.level.toNat + 1 < 4294967296) (method : FrameMethod) {w : Vault}
    (hw : v.afterAll (passes p.index n g ++ [.pushFrame (some q) method]) = w) :
    w.frame? p = some { parent := some q, method, level := f.level + 1 } ∧ w.frame? q = some f := by
  have hturns := turns_spec hs hfree Frame.owner passing n
  have hback := hturns.free_eq.trans hfree
  have hgeneration := hturns.generations p.index
  rw [if_pos rfl, hg, Option.map_some, hn] at hgeneration
  have hvacant : v.frames.entryAt? p.index = none := by
    have hnone := ((hs.free_iff p.index).1 (by simp [hfree])).2
    rwa [ownerAt?, Option.map_eq_none_iff] at hnone
  have hf' : ({ v with frames := v.frames.turns Frame.owner passing n } : Vault).frame? q =
      some f := by
    rw [frame?, get?, hturns.entry?_eq hvacant]
    exact hf
  have hall := allocate_spec hturns.sound (Or.inl (by simp [hback])) Frame.owner
    { parent := some q, method, level := f.level + 1 : Frame }
  rw [(allocate_of_free hback _ _).1, hgeneration, Option.getD_some] at hall
  have hlast : w =
      (Operation.pushFrame (some q) method).after (v.afterAll (passes p.index n g)) := by
    rw [← hw, afterAll, List.foldl_append]
    rfl
  rw [hlast, afterAll_passes hs hfree hg hordinary n, after_pushFrame hf' hlevel]
  obtain ⟨e, he⟩ := get?_eq_some_iff.1 hf'
  exact ⟨get?_eq_some_iff.2 ⟨Frame.owner, hall.entry?_self⟩,
    get?_eq_some_iff.2 ⟨e, hall.extends.entry? he⟩⟩

/-- Two frames that call each other, after pushes and removals alone: the inner frame was pushed
onto the outer one, which was removed, and its slot was filled and vacated until it came back to its
generation. -/
theorem frames_circle : ∃ (v₀ v : Vault) (operations : List Operation) (f g : Frame),
    create {} {} = .ok v₀ ∧ (∀ o ∈ operations, o.IsCall) ∧ v₀.afterAll operations = v ∧
    v.frame? ⟨5, 0⟩ = some f ∧ f.parent = some ⟨6, 0⟩ ∧ f.level = 2 ∧
    v.frame? ⟨6, 0⟩ = some g ∧ g.parent = some ⟨5, 0⟩ ∧ g.level = 1 ∧
    ¬ ∃ chain gone, v.CallChain (some ⟨5, 0⟩) chain gone := by
  let outer : Operation := .pushFrame none (.system "outer")
  let inner : Operation := .pushFrame (some ⟨5, 0⟩) (.system "inner")
  have hrun : (create {} {}).toOption.any fun v₀ =>
      let v₁ := outer.after v₀
      let v := (Operation.popFrame ⟨5, 0⟩).after (inner.after v₁)
      decide (v₀.frames.slots.size ≤ 100) && decide (v₁.frames.slots.size ≤ 100) &&
        decide (v.frames.free = [5]) && decide (v.frames.generation? 5 = some 1) &&
        (v.systemFrames.all fun e => e.2.index ≠ 5) &&
        (v.frame? ⟨6, 0⟩).any fun f => f.parent = some ⟨5, 0⟩ && f.level = 1 := by
    decide +kernel
  obtain ⟨v₀, hcreated, hrun⟩ := (Option.any_eq_true _ _).1 hrun
  have hcreated := toOption_eq_some.1 hcreated
  simp only [Bool.and_eq_true, decide_eq_true_eq] at hrun
  obtain ⟨⟨⟨⟨⟨h₀, h₁⟩, hfree⟩, hgeneration⟩, hordinary⟩, hinner⟩ := hrun
  obtain ⟨g, hg, hcalled⟩ := (Option.any_eq_true _ _).1 hinner
  simp only [Bool.and_eq_true, decide_eq_true_eq] at hcalled
  have hproceeds := (((Proceeds.refl v₀).operate outer (regular_pushFrame h₀ _ _)).operate inner
    (regular_pushFrame h₁ _ _)).operate (.popFrame ⟨5, 0⟩) fun _ => by decide
  have hframes := (hproceeds.levelled (sound_create hcreated) (levelled_create hcreated)).frames
  have hlevel : g.level.toNat + 1 < 4294967296 := by
    rw [hcalled.2]
    decide
  have hfirst : ∀ rest, v₀.afterAll (outer :: inner :: .popFrame ⟨5, 0⟩ :: rest) =
      afterAll ((Operation.popFrame ⟨5, 0⟩).after (inner.after (outer.after v₀))) rest :=
    fun _ => rfl
  generalize (Operation.popFrame ⟨5, 0⟩).after (inner.after (outer.after v₀)) = v at *
  obtain ⟨w, hw⟩ : ∃ w, v.afterAll (passes 5 4294967295 1 ++
    [.pushFrame (some ⟨6, 0⟩) (.system "outer")]) = w := ⟨_, rfl⟩
  obtain ⟨hclosed, hstays⟩ := afterAll_circle (p := ⟨5, 0⟩) hframes.sound hfree hgeneration
    (by decide) (fun e he => by simpa using List.all_eq_true.1 hordinary e he) hg hlevel _ hw
  refine ⟨v₀, w, _, _, g, hcreated, fun o ho => ?_, (hfirst _).trans hw, hclosed, rfl, ?_, hstays,
    hcalled.1, hcalled.2, fun ⟨chain, gone, hchain⟩ =>
      CallChain.not_of_circle hclosed rfl hstays hcalled.1 hchain⟩
  · simp only [List.mem_cons, List.mem_append, List.not_mem_nil, or_false] at ho
    rcases ho with rfl | rfl | rfl | ho | rfl
    · trivial
    · trivial
    · trivial
    · exact isCall_of_mem_passes ho
    · trivial
  · rw [hcalled.2]
    rfl

/-- The trace of a frame of level zero has two lines if the name of its method has a line feed. -/
theorem stackTrace_two_lines : ∃ (v₀ v : Vault) (f : Frame), create {} {} = .ok v₀ ∧
    v₀.Proceeds v ∧ v.frame? ⟨5, 0⟩ = some f ∧ f.level = 0 ∧
    v.stackTrace ⟨5, 0⟩ = .ok "\tat app/Program.run\n\tat app/Program.helper\n" := by
  let run : Operation := .pushFrame none (.managed ⟨⟨23, 0⟩, 0⟩)
  have hrun : (create {} {}).toOption.any fun v₀ =>
      (programImage "run\n\tat app/Program.helper" []).toOption.any fun image =>
      image.encode.toOption.any fun bytes =>
      let loaded := stateAfter (Searcher.load {} bytes v₀)
      let v := run.after loaded
      decide (loaded.frames.slots.size ≤ 100) && (v.frame? ⟨5, 0⟩).any (·.level = 0) &&
        (v.stackTrace ⟨5, 0⟩).toOption =
          some "\tat app/Program.run\n\tat app/Program.helper\n" := by
    decide +kernel
  obtain ⟨v₀, hcreated, hrun⟩ := (Option.any_eq_true _ _).1 hrun
  obtain ⟨image, _, hrun⟩ := (Option.any_eq_true _ _).1 hrun
  obtain ⟨bytes, _, hrun⟩ := (Option.any_eq_true _ _).1 hrun
  simp only [Bool.and_eq_true, decide_eq_true_eq] at hrun
  obtain ⟨⟨hfew, hlevel⟩, htrace⟩ := hrun
  obtain ⟨f, hf, hlevel⟩ := (Option.any_eq_true _ _).1 hlevel
  have hproceeds := ((Proceeds.refl v₀).loadWith {} bytes).operate run
    (regular_pushFrame hfew _ _)
  exact ⟨v₀, _, f, toOption_eq_some.1 hcreated, hproceeds, hf, of_decide_eq_true hlevel,
    toOption_eq_some.1 htrace⟩

/-- Two frames that call each other, after pushes and removals alone, and the trace of a frame of
level zero with two lines. -/
theorem frames_unlevelled :
    (∃ (v₀ v : Vault) (operations : List Operation) (f g : Frame), create {} {} = .ok v₀ ∧
      (∀ o ∈ operations, o.IsCall) ∧ v₀.afterAll operations = v ∧
      v.frame? ⟨5, 0⟩ = some f ∧ f.parent = some ⟨6, 0⟩ ∧ f.level = 2 ∧
      v.frame? ⟨6, 0⟩ = some g ∧ g.parent = some ⟨5, 0⟩ ∧ g.level = 1 ∧
      ¬ ∃ chain gone, v.CallChain (some ⟨5, 0⟩) chain gone) ∧
    ∃ (v₀ v : Vault) (f : Frame), create {} {} = .ok v₀ ∧ v₀.Proceeds v ∧
      v.frame? ⟨5, 0⟩ = some f ∧ f.level = 0 ∧
      v.stackTrace ⟨5, 0⟩ = .ok "\tat app/Program.run\n\tat app/Program.helper\n" :=
  ⟨frames_circle, stackTrace_two_lines⟩

end Vault

end VaultKernel
