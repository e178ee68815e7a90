import Mathlib.Logic.Relation
import VaultKernel.Proofs.Arena.Slots
import VaultKernel.Proofs.Heap.Removal
import VaultKernel.Proofs.Vault.Steps
import VaultKernel.Vault.Array
import VaultKernel.Vault.Invoke

/-!
# Operations that leave classes and modules alone

Objects, arrays and frames come and go without any change of the classes, of the loaded modules and
of the numbers that were granted. `Vault.Tended` lists the single changes that occur; an object is
stored only while its class is there and with a slot for each name of the layout (`Vault.Fits`).
`Run.Steady` says of an operation that it consists of such changes, whether it succeeds or not, and
`Run.Calm` that it does not touch the frames either.
-/

namespace VaultKernel

open Relation

namespace Vault

/-- Two vaults that differ in their objects, frames and registry at most. -/
structure Alike (v v' : Vault) : Prop where
  classes : v'.classes = v.classes
  modules : v'.modules = v.modules
  tokens : v'.tokens = v.tokens
  loading : v'.loading = v.loading

theorem Alike.refl (v : Vault) : v.Alike v := ⟨rfl, rfl, rfl, rfl⟩

theorem Alike.trans {v₁ v₂ v₃ : Vault} (h₁₂ : v₁.Alike v₂) (h₂₃ : v₂.Alike v₃) : v₁.Alike v₃ :=
  ⟨h₂₃.classes.trans h₁₂.classes, h₂₃.modules.trans h₁₂.modules, h₂₃.tokens.trans h₁₂.tokens,
    h₂₃.loading.trans h₁₂.loading⟩

/-- An object has a slot for each name in the layout of its class, which is there and complete. -/
def Fits (v : Vault) (o : Object) : Prop :=
  ∃ c l, v.class? o.type = some c ∧ c.isCompleted ∧ c.layout = some l ∧ o.slots.size = l.size

/-- What counts is that laid out classes stay as they are. -/
theorem Fits.mono {v v' : Vault} {o : Object} (h : v.Fits o)
    (hclasses : ∀ r c, v.class? r = some c → c.layout.isSome → v'.class? r = some c) :
    v'.Fits o := by
  obtain ⟨c, l, hc, hcompleted, hlayout, hsize⟩ := h
  exact ⟨c, l, hclasses _ c hc (by simp [hlayout]), hcompleted, hlayout, hsize⟩

/-- An object with a slot for each name has them after one of its slots was written. -/
theorem Fits.setSlot {v : Vault} {o : Object} (h : v.Fits o) (offset : Nat) (value : Value) :
    v.Fits (o.setSlot offset value) := by
  obtain ⟨c, l, hc, hcompleted, hlayout, hsize⟩ := h
  exact ⟨c, l, hc, hcompleted, hlayout, by rw [Object.setSlot, Array.size_setIfInBounds, hsize]⟩

/-- The class of a fitting object is there. -/
theorem Fits.contains {v : Vault} {o : Object} (h : v.Fits o) : v.classes.contains o.type := by
  obtain ⟨c, _, hc, _⟩ := h
  obtain ⟨owner, he⟩ := Arena.get?_eq_some_iff.1 hc
  exact Arena.contains_iff.2 ⟨_, he⟩

/-- A single change of the objects or the frames. -/
inductive Tended : Vault → Vault → Prop where
  | collected (v : Vault) : Tended v v.collected.2
  | stored {v : Vault} {object : Object} {size : UInt64} {immortal : Bool} {r : ObjectRef}
      {heap : Heap Object} : v.Fits object →
      v.heap.insert object size immortal = .ok r heap → Tended v { v with heap }
  | freed {v : Vault} {r : ObjectRef} {object : Object} {heap : Heap Object} :
      v.heap.free r = .ok object heap → Tended v { v with heap }
  | changed (v : Vault) (r : ObjectRef) (offset : Nat) (value : Value) :
      Tended v { v with heap := v.heap.modify r fun o => o.setSlot offset value }
  | pushed (v : Vault) (f : Frame) :
      Tended v { v with frames := (v.frames.allocate Frame.owner f).2 }
  | popped (v : Vault) (ref : FrameRef) : Tended v { v with frames := (v.frames.remove ref).2 }
  | reframed (v : Vault) (ref : FrameRef) (f : Frame → Frame) :
      Tended v { v with frames := v.frames.modify ref f }

/-- Any number of changes of the objects and the frames. -/
def Tends : Vault → Vault → Prop := ReflTransGen Tended

/-- A single change leaves classes, modules and numbers alone. -/
theorem Tended.alike {v v' : Vault} (h : v.Tended v') : v.Alike v' := by
  cases h <;> exact ⟨rfl, rfl, rfl, rfl⟩

theorem Tends.refl (v : Vault) : v.Tends v := ReflTransGen.refl

theorem Tends.trans {v₁ v₂ v₃ : Vault} (h₁₂ : v₁.Tends v₂) (h₂₃ : v₂.Tends v₃) : v₁.Tends v₃ :=
  ReflTransGen.trans h₁₂ h₂₃

/-- A single change is a row of changes. -/
theorem Tended.tends {v v' : Vault} (h : v.Tended v') : v.Tends v' := ReflTransGen.single h

/-- No row of changes reaches the classes, the modules or the numbers. -/
theorem Tends.alike {v v' : Vault} (h : v.Tends v') : v.Alike v' := by
  induction h with
  | refl => exact .refl v
  | tail _ hstep ih => exact ih.trans hstep.alike

/-- A single change disposes of nothing. -/
theorem Tended.disposed {v v' : Vault} (h : v.Tended v') : v'.disposed = v.disposed := by
  cases h <;> rfl

/-- No row of changes disposes of anything. -/
theorem Tends.disposed {v v' : Vault} (h : v.Tends v') : v'.disposed = v.disposed := by
  induction h with
  | refl => rfl
  | tail _ hstep ih => exact hstep.disposed.trans ih

/-- Two vaults that differ in their objects alone. -/
structure Stirs (v v' : Vault) : Prop where
  tends : v.Tends v'
  rest : v' = { v with heap := v'.heap }

theorem Stirs.refl (v : Vault) : v.Stirs v := ⟨.refl v, rfl⟩

theorem Stirs.trans {v₁ v₂ v₃ : Vault} (h₁₂ : v₁.Stirs v₂) (h₂₃ : v₂.Stirs v₃) : v₁.Stirs v₃ := by
  refine ⟨h₁₂.tends.trans h₂₃.tends, ?_⟩
  rw [h₂₃.rest, h₁₂.rest]

/-- A single change that leaves the frames alone is a change of the objects. -/
theorem Tended.stirs {v v' : Vault} (h : v.Tended v') (hrest : v' = { v with heap := v'.heap }) :
    v.Stirs v' := ⟨h.tends, hrest⟩

end Vault

open Vault

namespace Run

variable {α β : Type}

/-- An operation that changes objects and frames only. -/
def Steady (run : Run α) : Prop := ∀ v, Ends (run v) (fun _ => v.Tends) v.Tends

theorem Steady.pure (a : α) : Steady (pure a) := fun v => .refl v

theorem Steady.throw (e : Failure) : Steady (throw e : Run α) := fun v => .refl v

theorem Steady.get : Steady (get : Run Vault) := fun v => .refl v

/-- Operations that change objects and frames only can follow one another. -/
theorem Steady.bind {x : Run α} {f : α → Run β} (hx : x.Steady) (hf : ∀ a, (f a).Steady) :
    (x >>= f).Steady := fun v =>
  (hx v).bind fun a v' hv' => (hf a v').mono (fun _ _ => hv'.trans) fun _ => hv'.trans

/-- A question changes nothing. -/
theorem Steady.ask (question : Vault → Except Failure α) : Steady (ask question) := by
  intro v
  unfold Run.ask
  cases question v with
  | ok a => exact .refl v
  | error e => exact .refl v

/-- An operation that changes objects only. -/
def Calm (run : Run α) : Prop := ∀ v, Ends (run v) (fun _ => v.Stirs) v.Stirs

/-- An operation that leaves the frames alone, too, is one that changes objects and frames only.
-/
theorem Calm.steady {run : Run α} (h : run.Calm) : run.Steady := fun v =>
  (h v).mono (fun _ _ => Stirs.tends) fun _ => Stirs.tends

theorem Calm.pure (a : α) : Calm (pure a) := fun v => .refl v

theorem Calm.throw (e : Failure) : Calm (throw e : Run α) := fun v => .refl v

theorem Calm.get : Calm (get : Run Vault) := fun v => .refl v

/-- Operations that change objects only can follow one another. -/
theorem Calm.bind {x : Run α} {f : α → Run β} (hx : x.Calm) (hf : ∀ a, (f a).Calm) :
    (x >>= f).Calm := fun v =>
  (hx v).bind fun a v' hv' => (hf a v').mono (fun _ _ => hv'.trans) fun _ => hv'.trans

theorem Calm.ask (question : Vault → Except Failure α) : Calm (ask question) := fun v =>
  Ends.ask (fun _ _ => .refl v) (.refl v)

/-! ## Objects -/

/-- A collection removes objects and touches nothing else. -/
theorem collect_calm : Calm collect := fun v => (Tended.collected v).stirs rfl

/-- The collection that an allocation may set off touches objects only. -/
theorem collectIfDue_calm : Calm collectIfDue := by
  refine Calm.get.bind fun v => ?_
  cases v.heap.isCollectionDue with
  | false => exact Calm.pure _
  | true => exact collect_calm.bind fun _ => Calm.pure _

/-- An object is stored that fits its class; a refused one leaves the heap alone. -/
theorem store_spec {v : Vault} {object : Object} (hfits : v.Fits object)
    (size : UInt64) (immortal : Bool) :
    Ends (store object size immortal v) (fun _ => v.Stirs) v.Stirs := by
  unfold store
  cases hinsert : v.heap.insert object size immortal with
  | ok r heap => exact (Tended.stored hfits hinsert).stirs rfl
  | error e heap =>
      rw [Heap.insert_eq_error hinsert]
      exact Stirs.refl v

/-- A new object fits its class. -/
theorem newObject_fits {v : Vault} {type : ClassRef} {extra : Nat} {object : Object} {size : UInt64}
    (h : v.newObject type extra = .ok (object, size)) : v.Fits object := by
  obtain ⟨c, hc, hrest⟩ := bind_eq_ok.1 h
  dsimp only at hrest
  split at hrest
  · cases hrest
  · next hready =>
      split at hrest
      case isFalse => cases hrest
      cases hrest
      rw [Bool.or_eq_true, not_or, Bool.not_eq_true', Bool.not_eq_false] at hready
      obtain ⟨hcompleted, hlayout⟩ := hready
      obtain ⟨l, hl⟩ : ∃ l, c.layout = some l :=
        Option.ne_none_iff_exists'.1 fun hnone => hlayout (by simp [hnone])
      refine ⟨c, l, classOf_eq_ok.1 hc, hcompleted, hl, ?_⟩
      simp [Object.blank, Class.slotCount, hl]

/-- Storing a new object after a step that keeps the classes. -/
theorem storeNew_calm (type : ClassRef) (extra : Nat) (immortal : Bool) {before : Run Unit}
    (hbefore : before.Calm) : Calm (do
      let (object, size) ← ask (·.newObject type extra)
      before
      store object size immortal) := by
  intro v
  refine Ends.bind (R := fun p v' => v' = v ∧ v.newObject type extra = .ok p)
    (Ends.ask (fun _ h => ⟨rfl, h⟩) (Stirs.refl v)) ?_
  rintro ⟨object, size⟩ v ⟨rfl, hnew⟩
  refine (hbefore v).bind fun _ v' hv' => ?_
  have hfits : v'.Fits object := by
    refine (newObject_fits hnew).mono fun r c hc _ => ?_
    rwa [class?, hv'.tends.alike.classes]
  exact (store_spec hfits size immortal).mono (fun _ _ => hv'.trans) fun _ => hv'.trans

/-- Allocating stores an object with a slot for each name of its class, or nothing. -/
theorem allocateSized_calm (type : ClassRef) (extra : Nat) : Calm (allocateSized type extra) :=
  (Calm.ask _).bind fun _ => storeNew_calm type extra false collectIfDue_calm

/-- Allocating without further slots is no different. -/
theorem allocate_calm (type : ClassRef) : Calm (allocate type) := allocateSized_calm type 0

/-- Immortal objects are allocated like the others. -/
theorem allocateImmortal_calm (type : ClassRef) : Calm (allocateImmortal type) :=
  (Calm.ask _).bind fun _ => storeNew_calm type 0 true (Calm.pure ())

/-- Freeing removes objects only. -/
theorem free_calm (r : ObjectRef) : Calm (free r) := by
  intro v
  unfold free
  cases hfree : v.heap.free r with
  | ok object heap => exact (Tended.freed hfree).stirs rfl
  | error e heap =>
      rw [Heap.free_eq_error hfree]
      exact Stirs.refl v

/-- Writing a slot changes one object. -/
theorem setSlot_calm (r : ObjectRef) (offset : Nat) (value : Value) :
    Calm (setSlot r offset value) :=
  (Calm.ask _).bind fun _ => fun v =>
    (Tended.changed v r offset value).stirs rfl

/-- Writing a field changes one object. -/
theorem setField_calm (r : ObjectRef) (name : String) (value : Value) :
    Calm (setField r name value) :=
  (Calm.ask _).bind fun offset => setSlot_calm r offset value

/-- Boxing allocates an object and writes its slot. -/
theorem box_calm (value : Value) : Calm (box value) := by
  have hscalar : ∀ t : CoreType, Calm (do
      let offset ← ask (·.fieldOffset t.ref CoreType.valueField)
      let r ← allocate t.ref
      setSlot r offset value
      return r) := fun t =>
    (Calm.ask _).bind fun _ => (allocate_calm _).bind fun _ =>
      (setSlot_calm _ _ _).bind fun _ => Calm.pure _
  unfold box
  split
  · exact Calm.pure _
  · split
    · exact Calm.throw _
    · exact hscalar _

/-! ## Arrays -/

/-- A new array is an allocation like any other. -/
theorem newArray_calm (element : ClassRef) (size : Nat) : Calm (newArray element size) := by
  unfold newArray
  refine (Calm.ask _).bind fun _ => (Calm.ask _).bind fun _ => (Calm.ask _).bind fun _ => ?_
  refine (Calm.ask _).bind fun _ => (Calm.ask _).bind fun _ => (Calm.ask _).bind fun _ => ?_
  refine (allocateSized_calm _ _).bind fun _ => (Calm.ask _).bind fun _ => ?_
  refine (setSlot_calm _ _ _).bind fun _ => (setSlot_calm _ _ _).bind fun _ => ?_
  refine (setSlot_calm _ _ _).bind fun _ => (setSlot_calm _ _ _).bind fun _ => ?_
  exact (setSlot_calm _ _ _).bind fun _ => Calm.pure _

/-- Reading from an array changes nothing but the box that is answered. -/
theorem arrayGet_calm (r : ObjectRef) (index : Int) : Calm (arrayGet r index) := by
  unfold arrayGet
  refine (Calm.ask _).bind fun place => (Calm.ask _).bind fun items => ?_
  split
  · exact Calm.pure _
  · exact Calm.pure _
  · refine (Calm.ask _).bind fun _ => (Calm.ask _).bind fun _ => ?_
    exact (allocate_calm _).bind fun _ => (setSlot_calm _ _ _).bind fun _ => Calm.pure _

/-- Writing to an array changes one object. -/
theorem arraySet_calm (r : ObjectRef) (index : Int) (value : Option ObjectRef) :
    Calm (arraySet r index value) := by
  unfold arraySet
  refine (Calm.ask _).bind fun place => (Calm.ask _).bind fun _ => (Calm.ask _).bind fun _ => ?_
  refine (Calm.ask _).bind fun offset => Calm.get.bind fun v => ?_
  split
  · exact Calm.throw _
  · split
    · exact setSlot_calm _ _ _
    · exact Calm.throw _
  · exact Calm.throw _

/-! ## Frames and native methods -/

/-- A pushed frame is a change of the frames. -/
theorem pushFrame_steady (parent : Option FrameRef) (method : FrameMethod) :
    Steady (pushFrame parent method) := by
  unfold pushFrame
  cases parent with
  | none => exact fun v => (Tended.pushed v _).tends
  | some p =>
      refine (Steady.ask _).bind fun level => ?_
      exact fun v => (Tended.pushed v _).tends

/-- A popped frame is a change of the frames. -/
theorem popFrame_steady (ref : FrameRef) : Steady (popFrame ref) := by
  intro v
  unfold popFrame
  refine Ends.bind (R := fun u v' => u = v ∧ v' = v) ⟨rfl, rfl⟩ fun u v' hu => ?_
  obtain ⟨rfl, rfl⟩ := hu
  split
  · exact Tends.refl _
  · have hpopped := (Tended.popped v' ref).tends
    generalize v'.frames.remove ref = removed at hpopped
    obtain ⟨_ | f, frames⟩ := removed
    · exact Tends.refl _
    · exact hpopped

/-- Rewriting a frame is a change of the frames. -/
theorem changeFrame_steady (ref : FrameRef) (f : Frame → Frame) : Steady (changeFrame ref f) :=
  fun v => (Tended.reframed v ref f).tends

/-- Recording an exception changes one frame. -/
theorem recordException_steady (ref : FrameRef) (value : ObjectRef) :
    Steady (recordException ref value) :=
  (Steady.ask _).bind fun _ => (changeFrame_steady _ _).bind fun _ => Steady.pure _

/-- Throwing allocates the exception and records it in one frame. -/
theorem throwException_steady (ref : FrameRef) (type : ClassRef) :
    Steady (throwException ref type) :=
  (allocate_calm _).steady.bind fun _ => (recordException_steady _ _).bind fun _ => Steady.pure _

/-- Throwing with a message also writes the field of the message. -/
theorem throwMessage_steady (ref : FrameRef) (type : ClassRef) (message : String) :
    Steady (throwMessage ref type message) := by
  unfold throwMessage
  refine Steady.get.bind fun v => ?_
  cases v.fieldOffset type CoreType.messageField with
  | error _ => exact Steady.throw _
  | ok offset =>
      refine (allocate_calm _).steady.bind fun _ => (setSlot_calm _ _ _).steady.bind fun _ => ?_
      exact (recordException_steady _ _).bind fun _ => Steady.pure _

/-- A fault is thrown like any other exception. -/
theorem throwFault_steady (ref : FrameRef) (failure : Failure) :
    Steady (throwFault ref failure) := by
  unfold throwFault
  split
  · exact throwMessage_steady _ _ _
  · exact Steady.throw _

/-- Looking up an argument changes nothing. -/
theorem argument_calm (args : NativeArguments) (index : Nat) : Calm (argument args index) := by
  unfold argument
  cases argument? args index with
  | none => exact Calm.throw _
  | some r => exact Calm.pure r

/-- Looking up an argument that is a text changes nothing. -/
theorem textArgument_calm (args : NativeArguments) (index : Nat) :
    Calm (textArgument args index) :=
  (argument_calm args index).bind fun _ => Calm.ask _

/-- Showing an argument changes nothing. -/
theorem displayArgument_calm (args : NativeArguments) (index : Nat) :
    Calm (displayArgument args index) := by
  unfold displayArgument
  cases argument? args index with
  | none => exact Calm.pure _
  | some r => exact Calm.ask _

/-- Looking up an argument that is a number changes nothing. -/
theorem integerArgument_calm (args : NativeArguments) (index : Nat) :
    Calm (integerArgument args index) :=
  (argument_calm args index).bind fun _ => Calm.ask _

/-- A result is boxed without touching the frames. -/
theorem returnBoxed_calm (value : Value) : Calm (returnBoxed value) :=
  (box_calm value).bind fun _ => Calm.pure _

/-- The body of a built-in function works on objects only. -/
theorem builtinBody_calm (function : Builtin) (args : NativeArguments) :
    Calm (builtinBody function args) := by
  cases function with
  | printLine => exact (displayArgument_calm args 0).bind fun _ => Calm.pure _
  | print => exact (displayArgument_calm args 0).bind fun _ => Calm.pure _
  | concat =>
      refine (textArgument_calm args 0).bind fun _ => (textArgument_calm args 1).bind fun _ => ?_
      exact returnBoxed_calm _
  | integerText => exact (integerArgument_calm args 0).bind fun _ => returnBoxed_calm _
  | exit => exact (integerArgument_calm args 0).bind fun _ => Calm.pure _
  | collect => exact collect_calm.bind fun _ => returnBoxed_calm _
  | countAlive => exact Calm.get.bind fun _ => returnBoxed_calm _
  | firstArgument => exact Calm.pure _

/-- A failure that is swallowed leaves the frames alone. -/
theorem swallow_calm (failure : Failure) : Calm (swallow failure) := by
  cases failure with
  | overflow => exact Calm.throw _
  | _ => exact Calm.pure _

/-- Calling a built-in function changes objects and frames only. -/
theorem callBuiltin_steady (function : Builtin) (frame : FrameRef) (args : NativeArguments) :
    Steady (callBuiltin function frame args) := by
  intro v
  have hbody := (builtinBody_calm function args).steady v
  unfold callBuiltin
  cases hrun : builtinBody function args v with
  | ok outcome v' =>
      rw [hrun] at hbody
      exact hbody
  | error failure v' =>
      rw [hrun] at hbody
      cases failure with
      | fault fault =>
          have hthrown := throwFault_steady frame (.fault fault) v'
          dsimp only
          cases hthrow : throwFault frame (.fault fault) v' with
          | ok _ v'' =>
              rw [hthrow] at hthrown
              exact Tends.trans hbody hthrown
          | error failure v'' =>
              rw [hthrow] at hthrown
              have htends := Tends.trans hbody hthrown
              exact ((swallow_calm failure).steady v'').mono (fun _ _ => htends.trans)
                fun _ => htends.trans
      | _ => exact ((swallow_calm _).steady v').mono (fun _ _ => hbody.trans) fun _ => hbody.trans

/-- Calling a native method changes objects and frames only. -/
theorem invokeNative_steady (m : MethodRef) (frame : FrameRef) (args : NativeArguments) :
    Steady (invokeNative m frame args) := by
  unfold invokeNative
  refine Steady.get.bind fun v => ?_
  cases v.method? m with
  | none => exact Steady.throw _
  | some method =>
      dsimp only
      split
      · exact callBuiltin_steady _ _ _
      · exact Steady.throw _
      · exact Steady.throw _
      · exact Steady.throw _

end Run

end VaultKernel
