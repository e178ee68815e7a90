import VaultKernel.Proofs.Class.Ancestry
import VaultKernel.Proofs.Vault.CallChains
import VaultKernel.Proofs.Vault.Disposal

/-!
# Which handler is found

The search for a handler is three searches in one: over the frames of a chain, over the zones of the
method that a frame runs, and over the handlers of a zone. Each takes the first that answers, so
together they take the first place in the order of frames, zones and handlers (`HandlerAt`). Whether
a handler is for an exception is a matter of ancestors, because the classes of a reachable vault are
counted exactly (`Reachable.isAssignable_iff`). The main statement is `findHandler_first`.
-/

namespace VaultKernel

open Relation Arena Classes

/-! ## Searches -/

section

variable {α β : Type} {f : α → Option β} {xs : List α} {b : β}

/-- The first element of a list that has an answer, with its place. -/
structure FirstAt (f : α → Option β) (xs : List α) (n : Nat) (x : α) (b : β) : Prop where
  place : xs[n]? = some x
  answer : f x = some b
  earlier : ∀ m y, m < n → xs[m]? = some y → f y = none

/-- An answer that a search finds is the first one. -/
theorem exists_firstAt (h : xs.findSome? f = some b) : ∃ n x, FirstAt f xs n x b := by
  obtain ⟨before, x, after, rfl, hanswer, hnone⟩ := List.findSome?_eq_some_iff.1 h
  refine ⟨before.length, x, by simp, hanswer, fun m y hm hy => hnone y ?_⟩
  rw [List.getElem?_append_left hm] at hy
  exact List.mem_of_getElem? hy

/-- What has an answer is not before the first one. -/
theorem FirstAt.le {n m : Nat} {x y : α} (h : FirstAt f xs n x b) (hy : xs[m]? = some y)
    (hanswer : (f y).isSome) : n ≤ m := by
  refine Nat.le_of_not_lt fun hlt => ?_
  rw [h.earlier m y hlt hy] at hanswer
  cases hanswer

end

namespace Vault

variable {v w : Vault} {thrown : ClassRef} {ref : FrameRef} {f : Frame} {address : UInt32}
  {chain : List (FrameRef × Frame)} {gone : Option FrameRef}

/-! ## Ancestors in reachable vaults -/

/-- A change of the vault keeps what is logged of the parents. -/
theorem Step.traced (h : v.Step w) (hv : Traced v.classes) : Traced w.classes := by
  obtain ⟨log, hlog⟩ := hv
  rcases h.classes_cases with ⟨_, hclasses⟩ | ⟨_, hclasses⟩ | ⟨_, hprivate⟩ | ⟨id, _, hclasses⟩
  · exact ⟨log, hclasses ▸ hlog⟩
  · exact ⟨log, hclasses ▸ hlog⟩
  · cases hprivate with
    | withRegistry => exact ⟨log, hlog⟩
    | define => exact ⟨_, hlog.stored _ _⟩
    | changeClass => exact ⟨_, hlog.changed _ _⟩
    | layOut => exact Traced.assignLayouts ⟨log, hlog⟩ _
  · exact ⟨_, hclasses ▸ hlog.removeOwner _⟩

/-- A row of changes keeps what is logged of the parents. -/
theorem Steps.traced (h : v.Steps w) (hv : Traced v.classes) : Traced w.classes := by
  induction h with
  | refl => exact hv
  | tail _ hstep ih => exact hstep.traced ih

/-- One class is assignable to another one exactly if the other one is among its ancestors. -/
theorem Reachable.isAssignable_iff (hv : v.Reachable) {source target : ClassRef} :
    v.isAssignable source target ↔ ReflTransGen (Parent v.classes) source target := by
  obtain ⟨config, registry, v₀, hcreated, hreaches⟩ := hv
  have hsteps := hreaches.steps (sound_create hcreated)
  exact (hsteps.traced (traced_install (installed_create hcreated))).isAssignable_iff

/-! ## One frame -/

/-- A handler of a zone is for an exception thrown at the address: the zone contains the address,
and the handler catches everything or an ancestor of the class. -/
def Guards (v : Vault) (thrown : ClassRef) (address : UInt32) (z : ProtectedZone) (k : Nat)
    (handler : Int32) : Prop :=
  z.start.toInt ≤ (address.toNat : Int) ∧ (address.toNat : Int) < z.stop.toInt ∧
    z.catchAddresses[k]? = some handler ∧ ∃ type, z.catchTypes[k]? = some type ∧
      ∀ t, type = some t → ReflTransGen (Parent v.classes) thrown t

/-- The handler at a place of the table of a frame is for an exception thrown at the address. -/
def CatchesAt (v : Vault) (thrown : ClassRef) (f : Frame) (address : UInt32) (j k : Nat)
    (handler : Int32) : Prop :=
  ∃ z, (v.zonesOf f)[j]? = some z ∧ v.Guards thrown address z k handler

/-- A handler catches the classes that descend from its type. -/
theorem Reachable.catches_iff (hv : v.Reachable) {type : Option ClassRef} :
    v.catches thrown type ↔ ∀ t, type = some t → ReflTransGen (Parent v.classes) thrown t := by
  cases type with
  | none => simp [catches]
  | some t => simp [catches, hv.isAssignable_iff]

/-- The address of a handler that catches an exception. -/
def handlerFor? (v : Vault) (thrown : ClassRef) (e : Option ClassRef × Int32) : Option Int32 :=
  if v.catches thrown e.1 then some e.2 else none

/-- The handler that a zone has for an exception thrown at an address. -/
def zoneHandler? (v : Vault) (thrown : ClassRef) (address : UInt32) (z : ProtectedZone) :
    Option Int32 :=
  if z.covers address then v.handlerInZone? thrown z else none

/-- The search in a zone, handler by handler. -/
theorem handlerInZone?_eq (v : Vault) (thrown : ClassRef) (z : ProtectedZone) :
    v.handlerInZone? thrown z = z.handlers.findSome? (v.handlerFor? thrown) := by
  rw [handlerInZone?]
  induction z.handlers with
  | nil => rfl
  | cons e rest ih =>
      rw [List.find?_cons, List.findSome?_cons, handlerFor?]
      dsimp only
      cases v.catches thrown e.1 with
      | true => rfl
      | false => exact ih

/-- The search in a frame, zone by zone. -/
theorem handlerInFrame?_eq (v : Vault) (thrown : ClassRef) (f : Frame) (address : UInt32) :
    v.handlerInFrame? thrown f address =
      (v.zonesOf f).findSome? (v.zoneHandler? thrown address) := by
  rw [handlerInFrame?]
  induction v.zonesOf f with
  | nil => rfl
  | cons z rest ih =>
      rw [List.filter_cons, List.findSome?_cons, zoneHandler?]
      cases z.covers address with
      | true => rw [if_pos rfl, if_pos rfl, List.findSome?_cons, ih]
      | false => exact ih

/-- The handlers of a zone are for what happens in it and what they catch. -/
theorem Reachable.guards_iff (hv : v.Reachable) {z : ProtectedZone} {k : Nat} {handler : Int32} :
    v.Guards thrown address z k handler ↔ z.covers address ∧
      ∃ e, z.handlers[k]? = some e ∧ v.handlerFor? thrown e = some handler := by
  rw [Guards, ← and_assoc]
  refine and_congr (by simp [ProtectedZone.covers]) ?_
  constructor
  · rintro ⟨haddress, type, htype, hcatches⟩
    refine ⟨(type, handler), List.getElem?_zip_eq_some.2 ⟨htype, haddress⟩, ?_⟩
    exact if_pos (hv.catches_iff.2 hcatches)
  · rintro ⟨e, he, hhandler⟩
    obtain ⟨htype, haddress⟩ := List.getElem?_zip_eq_some.1 he
    unfold handlerFor? at hhandler
    split at hhandler
    · next hcatches =>
        cases hhandler
        exact ⟨haddress, e.1, htype, hv.catches_iff.1 hcatches⟩
    · cases hhandler

/-- A search finds something if there is something to be found. -/
theorem isSome_findSome? {α β : Type} {g : α → Option β} {xs : List α} {n : Nat} {x : α}
    (hx : xs[n]? = some x) (hg : (g x).isSome) : (xs.findSome? g).isSome :=
  List.findSome?_isSome_iff.2 ⟨x, List.mem_of_getElem? hx, hg⟩

/-- A zone with a handler for the exception has an answer. -/
theorem Reachable.isSome_zoneHandler? (hv : v.Reachable) {z : ProtectedZone} {k : Nat}
    {handler : Int32} (h : v.Guards thrown address z k handler) :
    (v.zoneHandler? thrown address z).isSome := by
  obtain ⟨hcovers, e, he, hhandler⟩ := hv.guards_iff.1 h
  rw [zoneHandler?, if_pos hcovers, handlerInZone?_eq]
  exact isSome_findSome? he (Option.isSome_of_eq_some hhandler)

/-- A frame has a handler if some place of its table is for the exception. -/
theorem Reachable.isSome_handlerInFrame? (hv : v.Reachable) {j k : Nat} {handler : Int32}
    (h : v.CatchesAt thrown f address j k handler) :
    (v.handlerInFrame? thrown f address).isSome := by
  obtain ⟨z, hz, hguards⟩ := h
  rw [handlerInFrame?_eq]
  exact isSome_findSome? hz (hv.isSome_zoneHandler? hguards)

/-- The search in a zone takes the first handler. -/
theorem Reachable.zoneHandler?_first (hv : v.Reachable) {z : ProtectedZone} {handler : Int32}
    (h : v.zoneHandler? thrown address z = some handler) :
    ∃ k, v.Guards thrown address z k handler ∧
      ∀ k' handler', v.Guards thrown address z k' handler' → k ≤ k' := by
  unfold zoneHandler? at h
  split at h
  · next hcovers =>
      rw [handlerInZone?_eq] at h
      obtain ⟨k, e, hfirst⟩ := exists_firstAt h
      refine ⟨k, hv.guards_iff.2 ⟨hcovers, e, hfirst.place, hfirst.answer⟩,
        fun k' handler' hother => ?_⟩
      obtain ⟨_, e', he', hhandler'⟩ := hv.guards_iff.1 hother
      exact hfirst.le he' (Option.isSome_of_eq_some hhandler')
  · cases h

/-- The search in a frame takes the first place in the table, zones before handlers. -/
theorem Reachable.handlerInFrame?_first (hv : v.Reachable) {handler : Int32}
    (h : v.handlerInFrame? thrown f address = some handler) :
    ∃ j k, v.CatchesAt thrown f address j k handler ∧
      ∀ j' k' handler', v.CatchesAt thrown f address j' k' handler' → j < j' ∨ j = j' ∧ k ≤ k' := by
  rw [handlerInFrame?_eq] at h
  obtain ⟨j, z, hfirst⟩ := exists_firstAt h
  obtain ⟨k, hguards, hleast⟩ := hv.zoneHandler?_first hfirst.answer
  refine ⟨j, k, ⟨z, hfirst.place, hguards⟩, ?_⟩
  rintro j' k' handler' ⟨z', hz', hguards'⟩
  have hle := hfirst.le hz' (hv.isSome_zoneHandler? hguards')
  refine (Nat.lt_or_eq_of_le hle).imp id fun hsame => ⟨hsame, ?_⟩
  subst hsame
  cases hfirst.place.symm.trans hz'
  exact hleast k' handler' hguards'

/-! ## A chain of frames -/

/-- The frames of a chain with the addresses at which they are searched: the first one where the
exception was thrown, its callers at their own. -/
def searched (address : UInt32) : List (FrameRef × Frame) → List (FrameRef × Frame × UInt32)
  | [] => []
  | (ref, f) :: callers => (ref, f, address) :: callers.map fun c => (c.1, c.2, c.2.address)

/-- The handler that a frame has, with the frame. -/
def frameHandler? (v : Vault) (thrown : ClassRef) (s : FrameRef × Frame × UInt32) :
    Option (FrameRef × Int32) :=
  (v.handlerInFrame? thrown s.2.1 s.2.2).map fun handler => (s.1, handler)

/-- A frame is searched at the address of the throw if it comes first, and else at its own. -/
theorem getElem?_searched {i : Nat} {s : FrameRef × Frame × UInt32} :
    (searched address chain)[i]? = some s ↔
      chain[i]? = some (s.1, s.2.1) ∧ s.2.2 = if i = 0 then address else s.2.1.address := by
  obtain ⟨r, g, a⟩ := s
  cases chain with
  | nil => simp [searched]
  | cons c callers =>
      obtain ⟨ref, f⟩ := c
      cases i with
      | zero => simp [searched, and_assoc, eq_comm]
      | succ i =>
          simp only [searched, List.getElem?_cons_succ, List.getElem?_map]
          cases callers[i]? with
          | none => simp
          | some c' =>
              simp only [Option.map_some, Option.some_inj, Prod.ext_iff, Nat.add_eq_zero_iff]
              constructor
              · rintro ⟨hr, hg, ha⟩
                exact ⟨⟨hr, hg⟩, by simp [← ha, ← hg]⟩
              · rintro ⟨⟨hr, hg⟩, ha⟩
                exact ⟨hr, hg, by simp [ha, ← hg]⟩

/-- The search looks into one frame and goes on with its caller. -/
theorem handlerFrom_succ {fuel : Nat} (hf : v.frame? ref = some f) :
    v.handlerFrom thrown (fuel + 1) ref address =
      match v.handlerInFrame? thrown f address with
      | some handler => .ok (some (ref, handler))
      | none =>
        match f.parent.bind fun p => (v.frame? p).map fun caller => (p, caller.address) with
        | some (p, callerAddress) => v.handlerFrom thrown fuel p callerAddress
        | none => .ok none := by
  rw [handlerFrom, frameOf_eq_ok.2 hf]
  rfl

/-- The search goes along the chain, frame by frame. -/
theorem CallChain.handlerFrom_eq (h : v.CallChain (some ref) chain gone)
    (hf : v.frame? ref = some f)
    {fuel : Nat} (hfuel : chain.length ≤ fuel) :
    v.handlerFrom thrown fuel ref address =
      .ok ((searched address chain).findSome? (v.frameHandler? thrown)) := by
  generalize hcursor : some ref = cursor at h
  induction h generalizing ref f fuel address with
  | ended => cases hcursor
  | gone hgone =>
      cases hcursor
      cases hgone.symm.trans hf
  | @frame ref f' rest gone hf' hrest ih =>
      cases hcursor
      cases hf.symm.trans hf'
      cases fuel with
      | zero => cases hfuel
      | succ fuel =>
          have hfuel := Nat.le_of_succ_le_succ hfuel
          rw [handlerFrom_succ hf, searched, List.findSome?_cons, frameHandler?]
          cases v.handlerInFrame? thrown f' address with
          | some handler => rfl
          | none =>
              cases hparent : f'.parent with
              | none =>
                  rw [hparent] at hrest
                  cases hrest
                  rfl
              | some p =>
                  rw [hparent] at hrest ih
                  cases hp : v.frame? p with
                  | none =>
                      cases hrest with
                      | gone => simp [hp]
                      | frame hp' => cases hp.symm.trans hp'
                  | some g =>
                      cases hrest with
                      | gone hgone => cases hgone.symm.trans hp
                      | frame hp' _ =>
                          cases hp.symm.trans hp'
                          simp only [Option.bind_some, hp, Option.map_some]
                          rw [ih hp hfuel rfl, searched]
                          rfl

/-! ## The whole search -/

/-- The handler at a place of a chain is for an exception thrown at an address of its first frame.
-/
def HandlerAt (v : Vault) (chain : List (FrameRef × Frame)) (address : UInt32) (thrown : ClassRef)
    (i j k : Nat) (frame : FrameRef) (handler : Int32) : Prop :=
  ∃ f, chain[i]? = some (frame, f) ∧
    v.CatchesAt thrown f (if i = 0 then address else f.address) j k handler

/-- A frame with a handler is searched and has an answer. -/
theorem Reachable.exists_searched (hv : v.Reachable) {i j k : Nat} {frame : FrameRef}
    {handler : Int32} (h : v.HandlerAt chain address thrown i j k frame handler) :
    ∃ s, (searched address chain)[i]? = some s ∧ (v.frameHandler? thrown s).isSome := by
  obtain ⟨f, hf, hcatches⟩ := h
  refine ⟨(frame, f, if i = 0 then address else f.address), getElem?_searched.2 ⟨hf, rfl⟩, ?_⟩
  rw [frameHandler?, Option.isSome_map]
  exact hv.isSome_handlerInFrame? hcatches

/-- A handler that the search finds is the answer. -/
theorem findHandler_of_some {frame : FrameRef} {handler : Int32}
    (h : v.handlerFrom thrown (v.frames.slots.size + 1) ref address = .ok (some (frame, handler))) :
    v.findHandler ref address thrown = .ok (.handled frame handler) := by
  rw [findHandler, h]
  rfl

/-- Without a handler the answer is the report, or what is wrong with the trace. -/
theorem findHandler_of_none
    (h : v.handlerFrom thrown (v.frames.slots.size + 1) ref address = .ok none) :
    v.findHandler ref address thrown = (v.stackTrace ref).map fun trace =>
      .unhandled ("Unhandled exception " ++ v.className thrown ++ "\n" ++ trace) := by
  rw [findHandler, h]
  cases v.stackTrace ref <;> rfl

/-- The search returns the first place in the order of frames, zones and handlers at which there is
a handler for the exception. Only if there is none it makes a report, or fails because a caller in
the trace is gone. -/
theorem findHandler_first (hv : v.Reachable) (h : v.CallChain (some ref) chain gone)
    (address : UInt32) (thrown : ClassRef) :
    (∃ i j k frame handler, v.HandlerAt chain address thrown i j k frame handler ∧
      (∀ i' j' k' frame' handler', v.HandlerAt chain address thrown i' j' k' frame' handler' →
        i < i' ∨ i = i' ∧ (j < j' ∨ j = j' ∧ k ≤ k')) ∧
      v.findHandler ref address thrown = .ok (.handled frame handler)) ∨
    ((∀ i j k frame handler, ¬ v.HandlerAt chain address thrown i j k frame handler) ∧
      v.findHandler ref address thrown = (v.stackTrace ref).map fun trace =>
        .unhandled ("Unhandled exception " ++ v.className thrown ++ "\n" ++ trace)) := by
  cases hf : v.frame? ref with
  | none =>
      -- neither the search nor the trace gets past a frame that is gone
      refine Or.inr ⟨?_, ?_⟩
      · cases h with
        | gone => simp [HandlerAt]
        | frame hf' => cases hf.symm.trans hf'
      · rw [findHandler, handlerFrom, stackTrace, traceFrom, frameOf, hf]
        rfl
  | some f =>
      have hfrom : v.handlerFrom thrown (v.frames.slots.size + 1) ref address =
          .ok ((searched address chain).findSome? (v.frameHandler? thrown)) :=
        h.handlerFrom_eq hf (Nat.le_succ_of_le h.length_le)
      cases hfound : (searched address chain).findSome? (v.frameHandler? thrown) with
      | some found =>
          obtain ⟨i, s, hfirst⟩ := exists_firstAt hfound
          obtain ⟨hplace, haddress⟩ := getElem?_searched.1 hfirst.place
          obtain ⟨handler, hhandler, rfl⟩ := Option.map_eq_some_iff.1 hfirst.answer
          obtain ⟨j, k, hcatches, hleast⟩ := hv.handlerInFrame?_first hhandler
          rw [hfound] at hfrom
          refine Or.inl ⟨i, j, k, s.1, handler, ⟨s.2.1, hplace, haddress ▸ hcatches⟩, ?_,
            findHandler_of_some hfrom⟩
          intro i' j' k' frame' handler' hother
          obtain ⟨s', hs', hanswer⟩ := hv.exists_searched hother
          refine (Nat.lt_or_eq_of_le (hfirst.le hs' hanswer)).imp id fun hsame => ⟨hsame, ?_⟩
          subst hsame
          obtain ⟨f', hf', hcatches'⟩ := hother
          cases hplace.symm.trans hf'
          exact hleast j' k' handler' (haddress ▸ hcatches')
      | none =>
          rw [hfound] at hfrom
          refine Or.inr ⟨fun i j k frame handler hother => ?_, findHandler_of_none hfrom⟩
          obtain ⟨s', hs', hanswer⟩ := hv.exists_searched hother
          rw [List.findSome?_eq_none_iff.1 hfound s' (List.mem_of_getElem? hs')] at hanswer
          cases hanswer

/-- An exception passes a frame of the runtime, then in the caller a zone that has ended and a
handler for another class. -/
theorem findHandler_first_caller : ∃ (v : Vault) (chain : List (FrameRef × Frame)), v.Reachable ∧
    v.CallChain (some ⟨6, 0⟩) chain none ∧
    (∃ i j k, v.HandlerAt chain 2 CoreType.outOfRangeException.ref i j k ⟨5, 0⟩ 8) ∧
    v.findHandler ⟨6, 0⟩ 2 CoreType.outOfRangeException.ref = .ok (.handled ⟨5, 0⟩ 8) := by
  let push : Operation := .pushFrame none (.managed ⟨⟨23, 0⟩, 0⟩)
  let move : Operation := .changeFrame ⟨5, 0⟩ fun f => { f with address := 6 }
  let call : Operation := .pushFrame (some ⟨5, 0⟩) (.system "leaf")
  have hrun : (create {} {}).toOption.any fun v₀ =>
      (programImage "run" [⟨0, 0, 4, [], [5], [2], []⟩, ⟨0, 0, 10, [], [7, 8], [3, -1], []⟩]
        ).toOption.any fun image => image.encode.toOption.any fun bytes =>
        let v := call.after (move.after (push.after (stateAfter (Searcher.load {} bytes v₀))))
        (v.frame? ⟨6, 0⟩).any (·.parent = some ⟨5, 0⟩) && (v.frame? ⟨5, 0⟩).any (·.parent = none) &&
          (v.findHandler ⟨6, 0⟩ 2 CoreType.outOfRangeException.ref).toOption =
            some (.handled ⟨5, 0⟩ 8) := by
    decide +kernel
  obtain ⟨v₀, hcreated, hrun⟩ := (Option.any_eq_true _ _).1 hrun
  obtain ⟨image, _, hrun⟩ := (Option.any_eq_true _ _).1 hrun
  obtain ⟨bytes, _, hrun⟩ := (Option.any_eq_true _ _).1 hrun
  simp only [Bool.and_eq_true, decide_eq_true_eq] at hrun
  obtain ⟨⟨hcalled, houtermost⟩, hhandled⟩ := hrun
  have hreaches := (((reaches_load {} bytes v₀).operate push).operate move).operate call
  have hv : Reachable _ := ⟨_, _, v₀, toOption_eq_some.1 hcreated, hreaches⟩
  generalize call.after _ = v at *
  obtain ⟨leaf, hleaf, hcalled⟩ := (Option.any_eq_true _ _).1 hcalled
  obtain ⟨run, hrunning, houtermost⟩ := (Option.any_eq_true _ _).1 houtermost
  have hended : v.CallChain run.parent [] none := by
    rw [of_decide_eq_true houtermost]
    exact .ended
  have hcaller : v.CallChain leaf.parent [(⟨5, 0⟩, run)] none := by
    rw [of_decide_eq_true hcalled]
    exact .frame hrunning hended
  have hchain := CallChain.frame hleaf hcaller
  have hhandled := toOption_eq_some.1 hhandled
  refine ⟨v, _, hv, hchain, ?_, hhandled⟩
  rcases findHandler_first hv hchain 2 CoreType.outOfRangeException.ref with
    ⟨i, j, k, frame, handler, hplace, _, hfound⟩ | ⟨_, hreport⟩
  · cases hhandled.symm.trans hfound
    exact ⟨i, j, k, hplace⟩
  · rw [hhandled, hchain.stackTrace_eq] at hreport
    cases hreport

end Vault

end VaultKernel
