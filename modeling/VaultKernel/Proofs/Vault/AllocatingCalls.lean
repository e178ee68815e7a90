import VaultKernel.Proofs.Vault.Needed
import VaultKernel.Proofs.Vault.Reachable

/-!
# Allocations spare what is needed

A call that allocates may collect first. It sees the frames as they were when it began, so every
object that was needed then is needed still, and what it allocates itself is handed out after the
collection (`Shelters`, `Brings`). Only when nothing more is allocated a call changes a frame. The
main statement is `allocating_call_preserves`.
-/

namespace VaultKernel

open Heap

namespace Vault

variable {v w : Vault} {r q : ObjectRef}

/-- What is needed in one vault lives in another one, with its class and its slots. -/
def Preserves (v v' : Vault) : Prop :=
  ∀ r, v.Needed r → v'.heap.contains r ∧ v'.heap.get? r = v.heap.get? r

/-- During a call that began in `v`: what was needed is as it was, and so are the frames. -/
structure Shelters (v w : Vault) : Prop where
  orderly : w.Orderly
  frames : w.frames = v.frames
  kept : ∀ r, v.Needed r → w.heap.bare? r = v.heap.bare? r

/-- A new object lives that nothing needed is. -/
structure Brings (v : Vault) (r : ObjectRef) (w : Vault) : Prop extends Shelters v w where
  live : w.heap.contains r
  unneeded : ¬ v.Needed r

/-- What is needed lives. -/
theorem Needed.contains (h : v.Needed r) : v.heap.contains r := (needed_iff.1 h).contains

theorem Shelters.refl (ho : v.Orderly) : v.Shelters v := ⟨ho, rfl, fun _ _ => rfl⟩

/-- What was needed when the call began still lives. -/
theorem Shelters.contains (hw : v.Shelters w) (hr : v.Needed r) : w.heap.contains r := by
  rw [contains_iff_bare?, hw.kept r hr, ← contains_iff_bare?]
  exact hr.contains

/-- What was needed when the call began is preserved. -/
theorem Shelters.preserves (hw : v.Shelters w) : v.Preserves w := fun r hr =>
  ⟨hw.contains hr, get?_eq_of_bare? (hw.kept r hr)⟩

/-- What was needed when the call began is needed still. -/
theorem Shelters.needed (hw : v.Shelters w) (hr : v.Needed r) : w.Needed r := by
  induction hr with
  | @immortal r x hx himmortal =>
      obtain ⟨e, he, rfl⟩ := Option.map_eq_some_iff.1 hx
      have hbare := hw.kept r (.immortal hx himmortal)
      rw [bare?, bare?, he] at hbare
      obtain ⟨e', he', hsame⟩ := Option.map_eq_some_iff.1 hbare
      refine .immortal (x := e'.header) (by rw [header?, he']; rfl) ?_
      rw [← HeapEntry.immortal_bare, hsame]
      exact himmortal
  | @framed r ref f hframe hmention hlive =>
      have hstays : w.frame? ref = some f := by
        rw [frame?, hw.frames]
        exact hframe
      exact .framed hstays hmention (hw.contains (.framed hframe hmention hlive))
  | slotted hr ho hvalue hmention hlive ih =>
      refine .slotted ih ?_ hvalue hmention (hw.contains (.slotted hr ho hvalue hmention hlive))
      rw [get?_eq_of_bare? (hw.kept _ hr), ho]

/-! ## Single changes -/

/-- A collection in the midst of a call spares what was needed when it began. -/
theorem Shelters.collected (hw : v.Shelters w) : v.Shelters w.collected.2 := by
  obtain ⟨events, live, vacant, hk⟩ := hw.orderly.kept
  refine ⟨(Tended.collected w).orderly hw.orderly, hw.frames, fun r hr => ?_⟩
  obtain ⟨_, _, hreached, _⟩ := collect_spec hk.tidy hk.white w.roots
  exact (hreached r (needed_iff.1 (hw.needed hr))).trans (hw.kept r hr)

/-- A new object has a handle of its own, so nothing that was needed is replaced. -/
theorem Shelters.stored (hw : v.Shelters w) {object : Object} {size : UInt64} {immortal : Bool}
    {heap : Heap Object} (hfits : w.Fits object)
    (hinsert : w.heap.insert object size immortal = .ok r heap) :
    v.Brings r { w with heap } := by
  obtain ⟨events, live, vacant, hk⟩ := hw.orderly.kept
  have hbare := bare?_insert hk.tidy.toThreads hinsert
  have hfresh := not_contains_of_insert hk.tidy.toThreads hinsert
  refine ⟨⟨(Tended.stored hfits hinsert).orderly hw.orderly, hw.frames, fun q hq => ?_⟩, ?_,
    fun hr => hfresh (hw.contains hr)⟩
  · have hqr : q ≠ r := fun heq => hfresh (heq ▸ hw.contains hq)
    show heap.bare? q = _
    rw [hbare, if_neg hqr]
    exact hw.kept q hq
  · show heap.contains r
    rw [contains_iff_bare?, hbare, if_pos rfl]
    rfl

/-- Writing to the new object changes nothing that was needed. -/
theorem Brings.changed (hw : v.Brings r w) (offset : Nat) (value : Value) :
    v.Brings r { w with heap := w.heap.modify r fun o => o.setSlot offset value } := by
  refine ⟨⟨(Tended.changed w r offset value).orderly hw.orderly, hw.frames, fun q hq => ?_⟩, ?_,
    hw.unneeded⟩
  · have hqr : q ≠ r := fun heq => hw.unneeded (heq ▸ hq)
    show (w.heap.modify r _).bare? q = _
    rw [bare?_modify, if_neg hqr]
    exact hw.kept q hq
  · show (w.heap.modify r _).contains r
    rw [contains_iff_bare?, bare?_modify, if_pos rfl, Option.isSome_map, ← contains_iff_bare?]
    exact hw.live

end Vault

open Vault

namespace Run

variable {v w : Vault} {r : ObjectRef}

/-! ## Objects -/

/-- Whether it collects or not, the step before an allocation spares what is needed. -/
theorem collectIfDue_shelters (hw : v.Shelters w) :
    Ends (collectIfDue w) (fun _ => v.Shelters) v.Shelters := by
  refine Ends.get ?_
  cases w.heap.isCollectionDue with
  | false => exact hw
  | true => exact hw.collected

/-- An allocation brings a new object or changes nothing that is needed. -/
theorem allocateSized_brings (hw : v.Shelters w) (type : ClassRef) (extra : Nat) :
    Ends (allocateSized type extra w) v.Brings v.Shelters := by
  refine Ends.askThen (fun _ _ => Ends.askThen (fun new hnew => ?_) hw) hw
  obtain ⟨object, size⟩ := new
  refine ((collectIfDue_shelters hw).bind_split fun _ w' hrun hw' => ?_)
  have hclasses : w'.classes = w.classes := by
    have hcalm := collectIfDue_calm w
    rw [hrun] at hcalm
    exact hcalm.tends.alike.classes
  have hfits : w'.Fits object := by
    refine (newObject_fits hnew).mono fun r c hc _ => ?_
    rwa [class?, hclasses]
  unfold store
  cases hinsert : w'.heap.insert object size false with
  | ok r heap => exact hw'.stored hfits hinsert
  | error e heap =>
      rw [insert_eq_error hinsert]
      exact hw'

/-- A slot of the new object can be written. -/
theorem setSlot_brings (hw : v.Brings r w) (offset : Nat) (value : Value) :
    Ends (setSlot r offset value w) (fun _ => v.Brings r) v.Shelters :=
  Ends.askThen (fun _ _ => hw.changed offset value) hw.toShelters

/-- Boxing answers the object that it was given, or a new one. -/
theorem box_shelters (hw : v.Shelters w) (value : Value) :
    Ends (box value w)
      (fun r w' => v.Shelters w' ∧ (value = .object r ∧ w' = w ∨ w'.heap.contains r))
      v.Shelters := by
  unfold box
  split
  · exact ⟨hw, Or.inl ⟨rfl, rfl⟩⟩
  · cases CoreType.ofTypeCode? value.typeCode with
    | none => exact hw
    | some t =>
        refine Ends.askThen (fun offset _ => ?_) hw
        refine (allocateSized_brings hw t.ref 0).bind fun r w' hw' => ?_
        refine (setSlot_brings hw' offset value).bind fun _ w'' hw'' => ?_
        exact ⟨hw''.toShelters, Or.inr hw''.live⟩

/-! ## Arrays -/

/-- A new array is an object that the call brings. -/
theorem newArray_brings (hw : v.Shelters w) (element : ClassRef) (size : Nat) :
    Ends (newArray element size w) v.Brings v.Shelters := by
  unfold newArray
  refine Ends.askThen (fun _ _ => Ends.askThen (fun _ _ => Ends.askThen (fun _ _ => ?_) hw) hw) hw
  refine Ends.askThen (fun _ _ => Ends.askThen (fun _ _ => Ends.askThen (fun _ _ => ?_) hw) hw) hw
  refine (allocateSized_brings hw _ size).bind fun r _ hw => ?_
  refine Ends.askThen (fun _ _ => ?_) hw.toShelters
  refine (setSlot_brings hw _ _).bind fun _ _ hw => (setSlot_brings hw _ _).bind fun _ _ hw => ?_
  refine (setSlot_brings hw _ _).bind fun _ _ hw => (setSlot_brings hw _ _).bind fun _ _ hw => ?_
  exact (setSlot_brings hw _ _).bind fun _ _ hw => hw

/-- Reading from an array answers an object that was there, or a new box. -/
theorem arrayGet_shelters (hw : v.Shelters w) (array : ObjectRef) (index : Int) :
    Ends (arrayGet array index w)
      (fun answer w' => v.Shelters w' ∧ ∀ r, answer = some r → w' = w ∨ w'.heap.contains r)
      v.Shelters := by
  have hscalar : ∀ scalar : Value, Ends ((do
      let element ← ask (·.arrayClass array)
      let offset ← ask (·.fieldOffset element CoreType.valueField)
      let boxed ← allocate element
      setSlot boxed offset scalar
      return some boxed : Run (Option ObjectRef)) w)
      (fun answer w' => v.Shelters w' ∧ ∀ r, answer = some r → w' = w ∨ w'.heap.contains r)
      v.Shelters := by
    intro scalar
    refine Ends.askThen (fun element _ => Ends.askThen (fun offset _ => ?_) hw) hw
    refine (allocateSized_brings hw element 0).bind fun r _ hw => ?_
    refine (setSlot_brings hw offset scalar).bind fun _ _ hw => ⟨hw.toShelters, fun q hq => ?_⟩
    cases hq
    exact Or.inr hw.live
  unfold arrayGet
  refine Ends.askThen (fun place _ => Ends.askThen (fun items _ => ?_) hw) hw
  cases items[place]?.getD .null with
  | null => exact ⟨hw, by simp⟩
  | object element => exact ⟨hw, fun _ _ => Or.inl rfl⟩
  | _ => exact hscalar _

/-! ## Exceptions -/

/-- The new exception may be recorded in a frame, since nothing is allocated after that. -/
theorem recordException_preserves (hw : v.Brings r w) (ref : FrameRef) :
    Ends (recordException ref r w) (fun _ w' => v.Preserves w' ∧ w'.heap.contains r) v.Preserves :=
  Ends.askThen (fun _ _ => ⟨hw.preserves, hw.live⟩) hw.preserves

/-- Throwing preserves what was needed. -/
theorem throwException_preserves (hw : v.Shelters w) (ref : FrameRef) (type : ClassRef) :
    Ends (throwException ref type w) (fun r w' => v.Preserves w' ∧ w'.heap.contains r)
      v.Preserves := by
  refine ((allocateSized_brings hw type 0).mono (fun _ _ => id) fun _ => Shelters.preserves).bind
    fun r w' hw' => ?_
  exact (recordException_preserves hw' ref).bind fun _ _ hw => hw

/-- Throwing with a message preserves what was needed. -/
theorem throwMessage_preserves (hw : v.Shelters w) (ref : FrameRef) (type : ClassRef)
    (message : String) :
    Ends (throwMessage ref type message w) (fun r w' => v.Preserves w' ∧ w'.heap.contains r)
      v.Preserves := by
  unfold throwMessage
  refine Ends.get ?_
  cases w.fieldOffset type CoreType.messageField with
  | error _ => exact hw.preserves
  | ok offset =>
      refine ((allocateSized_brings hw type 0).mono (fun _ _ => id) fun _ =>
        Shelters.preserves).bind
        fun r w' hw' => ?_
      refine ((setSlot_brings hw' offset _).mono (fun _ _ => id) fun _ => Shelters.preserves).bind
        fun _ w'' hw'' => ?_
      exact (recordException_preserves hw'' ref).bind fun _ _ hw => hw

/-- A fault preserves what was needed. -/
theorem throwFault_preserves (hw : v.Shelters w) (ref : FrameRef) (failure : Failure) :
    Ends (throwFault ref failure w) (fun r w' => v.Preserves w' ∧ w'.heap.contains r)
      v.Preserves := by
  unfold throwFault
  split
  · exact throwMessage_preserves hw _ _ _
  · exact hw.preserves

/-! ## Builtins -/

/-- Looking up an argument changes nothing. -/
theorem argument_still (args : NativeArguments) (index : Nat) :
    Ends (argument args index w) (fun _ w' => w' = w) (· = w) := by
  unfold argument
  cases argument? args index with
  | none => rfl
  | some r => rfl

/-- Looking up a text changes nothing. -/
theorem textArgument_still (args : NativeArguments) (index : Nat) :
    Ends (textArgument args index w) (fun _ w' => w' = w) (· = w) := by
  refine (argument_still args index).bind fun r w' hsame => ?_
  subst hsame
  exact Ends.ask (fun _ _ => rfl) rfl

/-- Looking up a number changes nothing. -/
theorem integerArgument_still (args : NativeArguments) (index : Nat) :
    Ends (integerArgument args index w) (fun _ w' => w' = w) (· = w) := by
  refine (argument_still args index).bind fun r w' hsame => ?_
  subst hsame
  exact Ends.ask (fun _ _ => rfl) rfl

/-- Showing an argument changes nothing. -/
theorem displayArgument_still (args : NativeArguments) (index : Nat) :
    Ends (displayArgument args index w) (fun _ w' => w' = w) (· = w) := by
  unfold displayArgument
  cases argument? args index with
  | none => rfl
  | some r => exact Ends.ask (fun _ _ => rfl) rfl

end Run

/-- The object that a builtin returned. -/
def NativeOutcome.object? : NativeOutcome → Option ObjectRef
  | .returned value _ => value
  | .exited _ => none

namespace Run

/-- During a builtin that began in `v`: it has returned nothing, something that was there without
any change, or a new object. -/
def Builds (v : Vault) (outcome : NativeOutcome) (w : Vault) : Prop :=
  v.Shelters w ∧ ∀ r, outcome.object? = some r → w = v ∨ w.heap.contains r

/-- A boxed result is a new object. -/
theorem returnBoxed_builds (hw : v.Shelters w) {value : Value} (hvalue : ∀ r, value ≠ .object r) :
    Ends (returnBoxed value w) (Builds v) v.Shelters := by
  refine (box_shelters hw value).bind fun r w' h => ⟨h.1, fun q hq => ?_⟩
  cases hq
  exact h.2.imp_left fun hsame => absurd hsame.1 (hvalue r)

/-- The body of a built-in function returns nothing, what was there, or a new object. -/
theorem builtinBody_builds (ho : v.Orderly) (function : Builtin) (args : NativeArguments) :
    Ends (builtinBody function args v) (Builds v) v.Shelters := by
  have hv := Shelters.refl ho
  have hstop : ∀ w, w = v → v.Shelters w := fun w hsame => hsame ▸ hv
  cases function with
  | printLine | print =>
      refine ((displayArgument_still args 0).mono (fun _ _ => id) hstop).bind fun _ w hsame => ?_
      exact ⟨hstop w hsame, by simp [NativeOutcome.object?]⟩
  | concat =>
      refine ((textArgument_still args 0).mono (fun _ _ => id) hstop).bind fun _ w hsame => ?_
      subst hsame
      refine ((textArgument_still args 1).mono (fun _ _ => id) hstop).bind fun _ w' hsame => ?_
      exact returnBoxed_builds (hstop w' hsame) (by simp)
  | integerText =>
      refine ((integerArgument_still args 0).mono (fun _ _ => id) hstop).bind fun _ w hsame => ?_
      exact returnBoxed_builds (hstop w hsame) (by simp)
  | exit =>
      refine ((integerArgument_still args 0).mono (fun _ _ => id) hstop).bind fun _ w hsame => ?_
      exact ⟨hstop w hsame, by simp [NativeOutcome.object?]⟩
  | collect =>
      exact Ends.bind (R := fun _ => v.Shelters) hv.collected fun _ _ hw =>
        returnBoxed_builds hw (by simp)
  | countAlive => exact Ends.get (returnBoxed_builds hv (by simp))
  | firstArgument => exact ⟨hv, fun _ _ => Or.inl rfl⟩

/-- A swallowed failure leaves the vault as it is. -/
theorem swallow_preserves (hw : v.Preserves w) (failure : Failure) :
    Ends (swallow failure w)
      (fun outcome w' => v.Preserves w' ∧
        ∀ r, outcome.object? = some r → w' = v ∨ w'.heap.contains r)
      v.Preserves := by
  cases failure with
  | overflow => exact hw
  | _ => exact ⟨hw, by simp [NativeOutcome.object?]⟩

/-- A built-in function preserves what was needed, also when it throws. -/
theorem callBuiltin_preserves (ho : v.Orderly) (function : Builtin) (frame : FrameRef)
    (args : NativeArguments) :
    Ends (callBuiltin function frame args v) (fun outcome w =>
      v.Preserves w ∧ ∀ r, outcome.object? = some r → w = v ∨ w.heap.contains r) v.Preserves := by
  have hbody := builtinBody_builds ho function args
  unfold callBuiltin
  cases hrun : builtinBody function args v with
  | ok outcome w =>
      rw [hrun] at hbody
      exact ⟨hbody.1.preserves, hbody.2⟩
  | error failure w =>
      rw [hrun] at hbody
      cases failure with
      | fault fault =>
          -- the frames are still those of the beginning when the fault is thrown
          have hthrown := throwFault_preserves hbody frame (.fault fault)
          dsimp only
          cases hthrow : throwFault frame (.fault fault) w with
          | ok _ w' =>
              rw [hthrow] at hthrown
              exact ⟨hthrown.1, by simp [NativeOutcome.object?]⟩
          | error failure w' =>
              rw [hthrow] at hthrown
              exact swallow_preserves hthrown failure
      | _ => exact swallow_preserves hbody.preserves _

end Run

/-! ## All calls -/

/-- A call that may allocate and so may collect. -/
inductive AllocatingCall where
  | allocate (type : ClassRef)
  | box (value : Value)
  | newArray (element : ClassRef) (size : Nat)
  | arrayGet (array : ObjectRef) (index : Int)
  | throwException (frame : FrameRef) (type : ClassRef)
  | throwMessage (frame : FrameRef) (type : ClassRef) (message : String)
  | throwFault (frame : FrameRef) (failure : Failure)
  | callBuiltin (function : Builtin) (frame : FrameRef) (args : NativeArguments)

/-- Runs a call; the answer is the object that it returns. -/
def AllocatingCall.run : AllocatingCall → Run (Option ObjectRef)
  | .allocate type => some <$> Run.allocate type
  | .box value => some <$> Run.box value
  | .newArray element size => some <$> Run.newArray element size
  | .arrayGet array index => Run.arrayGet array index
  | .throwException frame type => some <$> Run.throwException frame type
  | .throwMessage frame type message => some <$> Run.throwMessage frame type message
  | .throwFault frame failure => some <$> Run.throwFault frame failure
  | .callBuiltin function frame args =>
    NativeOutcome.object? <$> Run.callBuiltin function frame args

/-- Whatever an allocating call does, it leaves every needed object alone, and a new object that it
returns lives. An object that it returns without any change of the vault is not a new one. -/
theorem allocating_call_preserves {v : Vault} (hv : v.Reachable) (call : AllocatingCall) :
    Ends (call.run v) (fun answer v' =>
      v.Preserves v' ∧ ∀ r, answer = some r → v' = v ∨ v'.heap.contains r) v.Preserves := by
  have hself := Shelters.refl hv.orderly
  have hstop : ∀ w, v.Shelters w → v.Preserves w := fun _ => Shelters.preserves
  have hnew : ∀ {r w}, v.Preserves w ∧ w.heap.contains r →
      v.Preserves w ∧ ∀ q, some r = some q → w = v ∨ w.heap.contains q := by
    rintro r w ⟨hw, hlive⟩
    exact ⟨hw, fun q hq => Or.inr (Option.some.inj hq ▸ hlive)⟩
  cases call with
  | allocate type =>
      exact Ends.map ((Run.allocateSized_brings hself type 0).mono
        (fun _ _ h => hnew ⟨h.preserves, h.live⟩) hstop)
  | box value =>
      refine Ends.map ((Run.box_shelters hself value).mono (fun r w h => ⟨h.1.preserves, ?_⟩) hstop)
      intro q hq
      cases hq
      exact h.2.imp_left And.right
  | newArray element size =>
      exact Ends.map ((Run.newArray_brings hself element size).mono
        (fun _ _ h => hnew ⟨h.preserves, h.live⟩) hstop)
  | arrayGet array index =>
      exact (Run.arrayGet_shelters hself array index).mono (fun _ _ h => ⟨h.1.preserves, h.2⟩) hstop
  | throwException frame type =>
      exact Ends.map ((Run.throwException_preserves hself frame type).imp fun _ _ => hnew)
  | throwMessage frame type message =>
      exact Ends.map ((Run.throwMessage_preserves hself frame type message).imp fun _ _ => hnew)
  | throwFault frame failure =>
      exact Ends.map ((Run.throwFault_preserves hself frame failure).imp fun _ _ => hnew)
  | callBuiltin function frame args =>
      exact Ends.map (Run.callBuiltin_preserves hv.orderly function frame args)

/-- An allocation collects: it removes an object that nothing mentions, keeps the sentinel and uses
the slot again. -/
theorem allocating_call_preserves_collecting : ∃ v v' : Vault, v.Reachable ∧
    (AllocatingCall.allocate CoreType.string.ref).run v = .ok (some ⟨1, 1⟩) v' ∧
    v.Needed ⟨0, 0⟩ ∧ v.heap.contains ⟨1, 0⟩ ∧ v.Preserves v' ∧ v'.heap.contains ⟨0, 0⟩ ∧
    ¬ v'.heap.contains ⟨1, 0⟩ := by
  have hrun : (create { heap := { threshold := 0 } } {}).toOption.any fun v₀ =>
      let v := (Operation.allocate CoreType.string.ref).after v₀
      (v.heap.header? ⟨0, 0⟩).any (·.immortal) && v.heap.contains ⟨1, 0⟩ &&
        decide (Ends ((AllocatingCall.allocate CoreType.string.ref).run v)
          (fun answer v' => answer = some ⟨1, 1⟩ ∧ ¬ v'.heap.contains ⟨1, 0⟩) fun _ => False) := by
    decide +kernel
  cases hcreated : create { heap := { threshold := 0 } } {} with
  | error _ =>
      rw [hcreated] at hrun
      cases hrun
  | ok v₀ =>
      rw [hcreated] at hrun
      obtain ⟨hheld, hends⟩ := (Bool.and_eq_true _ _).mp hrun
      obtain ⟨himmortal, hbefore⟩ := (Bool.and_eq_true _ _).mp hheld
      have hv : ((Operation.allocate CoreType.string.ref).after v₀).Reachable :=
        ⟨_, _, v₀, hcreated, .operate _ (.refl v₀)⟩
      have hpreserved := allocating_call_preserves hv (.allocate CoreType.string.ref)
      have hends := of_decide_eq_true hends
      generalize (Operation.allocate CoreType.string.ref).after v₀ = v at *
      obtain ⟨x, hx, himmortal⟩ := (Option.any_eq_true _ _).1 himmortal
      cases hcall : (AllocatingCall.allocate CoreType.string.ref).run v with
      | error _ _ =>
          rw [hcall] at hends
          cases hends
      | ok answer v' =>
          rw [hcall] at hends hpreserved
          obtain ⟨rfl, hgone⟩ := hends
          have hneeded : v.Needed ⟨0, 0⟩ := .immortal hx himmortal
          exact ⟨v, v', hv, hcall, hneeded, hbefore, hpreserved.1,
            (hpreserved.1 _ hneeded).1, hgone⟩

end VaultKernel
