import VaultKernel.Proofs.Vault.CallLevels
import VaultKernel.Proofs.Vault.Handlers

/-!
# When nothing catches an exception

The search for a handler and the trace in its report go along the same chain of callers, but do not
agree on where it ends: the search stops in front of a caller that is gone, and the trace fails
there. `search_outcome` tells the outcomes apart. A search that finds a handler does not care for
the rest of the chain; one that finds none makes a report exactly if all ancestors of the frame are
there. `search_fails_popped` is a frame whose caller was removed.
-/

namespace VaultKernel.Vault

open Arena

variable {v w v₀ : Vault} {thrown : ClassRef} {ref p : FrameRef} {f : Frame} {address : UInt32}
  {chain : List (FrameRef × Frame)} {gone : Option FrameRef}

/-- A frame of the chain has a handler for an exception thrown at an address of the first one. -/
def Caught (v : Vault) (chain : List (FrameRef × Frame)) (address : UInt32) (thrown : ClassRef) :
    Prop :=
  ∃ i j k frame handler, v.HandlerAt chain address thrown i j k frame handler

/-- The report on an exception that no frame of the chain has a handler for. -/
def unhandledText (v : Vault) (chain : List (FrameRef × Frame)) (thrown : ClassRef) : String :=
  "Unhandled exception " ++ v.className thrown ++ "\n" ++
    String.join (chain.map fun c => v.traceLine c.2)

/-- What is found is a handler of a frame that was searched. -/
theorem Reachable.handlerAt_of_found (hv : v.Reachable) {frame : FrameRef} {handler : Int32}
    (h : (searched address chain).findSome? (v.frameHandler? thrown) = some (frame, handler)) :
    ∃ i j k, v.HandlerAt chain address thrown i j k frame handler := by
  obtain ⟨i, s, hfirst⟩ := exists_firstAt h
  obtain ⟨hplace, haddress⟩ := getElem?_searched.1 hfirst.place
  obtain ⟨found, hfound, heq⟩ := Option.map_eq_some_iff.1 hfirst.answer
  cases heq
  obtain ⟨j, k, hcatches, _⟩ := hv.handlerInFrame?_first hfound
  exact ⟨i, j, k, s.2.1, hplace, haddress ▸ hcatches⟩

/-- The search goes past all frames exactly if none of them has a handler. -/
theorem Reachable.not_caught_iff (hv : v.Reachable) : ¬ v.Caught chain address thrown ↔
    (searched address chain).findSome? (v.frameHandler? thrown) = none := by
  constructor
  · intro hnone
    rw [Option.eq_none_iff_forall_ne_some]
    rintro ⟨frame, handler⟩ hfound
    obtain ⟨i, j, k, hhandler⟩ := hv.handlerAt_of_found hfound
    exact hnone ⟨i, j, k, frame, handler, hhandler⟩
  · rintro hnone ⟨i, j, k, frame, handler, hhandler⟩
    obtain ⟨s, hs, hanswer⟩ := hv.exists_searched hhandler
    rw [List.findSome?_eq_none_iff.1 hnone s (List.mem_of_getElem? hs)] at hanswer
    cases hanswer

/-- If no frame has a handler, the trace decides. -/
theorem CallChain.findHandler_of_not_caught (h : v.CallChain (some ref) chain gone)
    (hv : v.Reachable) (hf : v.frame? ref = some f) (hnone : ¬ v.Caught chain address thrown) :
    v.findHandler ref address thrown = match gone with
      | none => .ok (.unhandled (v.unhandledText chain thrown))
      | some p => .error (.fatal (.frameGone p)) := by
  have hfrom : v.handlerFrom thrown (v.frames.slots.size + 1) ref address = .ok none := by
    rw [h.handlerFrom_eq hf (Nat.le_succ_of_le h.length_le), hv.not_caught_iff.1 hnone]
  rw [findHandler_of_none hfrom, h.stackTrace_eq]
  cases gone <;> rfl

/-- If a frame has a handler, the search succeeds, whether or not the chain is whole. -/
theorem CallChain.findHandler_of_caught (h : v.CallChain (some ref) chain gone)
    (hv : v.Reachable) (hf : v.frame? ref = some f) (hcaught : v.Caught chain address thrown) :
    ∃ i j k frame handler, v.HandlerAt chain address thrown i j k frame handler ∧
      v.findHandler ref address thrown = .ok (.handled frame handler) := by
  have hfrom : v.handlerFrom thrown (v.frames.slots.size + 1) ref address =
      .ok ((searched address chain).findSome? (v.frameHandler? thrown)) :=
    h.handlerFrom_eq hf (Nat.le_succ_of_le h.length_le)
  cases hfound : (searched address chain).findSome? (v.frameHandler? thrown) with
  | none => exact absurd hcaught (hv.not_caught_iff.2 hfound)
  | some found =>
      obtain ⟨i, j, k, hhandler⟩ := hv.handlerAt_of_found hfound
      rw [hfound] at hfrom
      exact ⟨i, j, k, _, _, hhandler, findHandler_of_some hfrom⟩

/-- The search from a living frame, after any run of public operations in which frames get slots of
their own and no slot is vacated for the 2 ^ 32nd time: it succeeds exactly if a frame of its chain
has a handler or all its ancestors are there. What it finds is a handler of the chain; what it
reports has a line for each frame that it searched, none of which has a handler; and its only
failure is that the caller in front of which it stopped is gone. -/
theorem search_outcome {config : VaultConfig} {registry : NativeRegistry}
    (hcreated : create config registry = .ok v₀) (h : v₀.Proceeds v) (hf : v.frame? ref = some f)
    (address : UInt32) (thrown : ClassRef) :
    ∃ chain gone, v.CallChain (some ref) chain gone ∧
      ((∃ outcome, v.findHandler ref address thrown = .ok outcome) ↔
        v.Caught chain address thrown ∨ ∀ a, v.Outward ref a → v.frames.contains a) ∧
      (∀ frame handler, v.findHandler ref address thrown = .ok (.handled frame handler) →
        ∃ i j k, v.HandlerAt chain address thrown i j k frame handler) ∧
      (∀ text, v.findHandler ref address thrown = .ok (.unhandled text) →
        gone = none ∧ ¬ v.Caught chain address thrown ∧ text = v.unhandledText chain thrown) ∧
      ∀ e, v.findHandler ref address thrown = .error e →
        ¬ v.Caught chain address thrown ∧ ∃ p, gone = some p ∧ e = .fatal (.frameGone p) := by
  have hv : v.Reachable := ⟨config, registry, v₀, hcreated, h.reaches⟩
  have hlevelled := h.levelled (sound_create hcreated) (levelled_create hcreated)
  obtain ⟨chain, gone, hchain⟩ := hlevelled.exists_chain (some ref)
  refine ⟨chain, gone, hchain, ?_⟩
  rw [← hchain.gone_eq_none_iff]
  by_cases hcaught : v.Caught chain address thrown
  · obtain ⟨i, j, k, frame, handler, hhandler, hsearch⟩ :=
      hchain.findHandler_of_caught hv hf hcaught
    refine ⟨⟨fun _ => Or.inl hcaught, fun _ => ⟨_, hsearch⟩⟩, ?_, ?_, ?_⟩
    · intro frame' handler' hsearch'
      cases hsearch.symm.trans hsearch'
      exact ⟨i, j, k, hhandler⟩
    · intro text hsearch'
      cases hsearch.symm.trans hsearch'
    · intro e hsearch'
      cases hsearch.symm.trans hsearch'
  · have hsearch := hchain.findHandler_of_not_caught hv hf hcaught
    cases gone with
    | none => simp [hsearch, hcaught]
    | some p => simp [hsearch, hcaught]

/-- The frame at the bottom was removed, but a handler is found before the search gets there. -/
theorem search_outcome_orphan : ∃ (v₀ v : Vault) (chain : List (FrameRef × Frame)),
    create {} {} = .ok v₀ ∧ v₀.Proceeds v ∧ v.CallChain (some ⟨7, 0⟩) chain (some ⟨5, 0⟩) ∧
      v.Caught chain 0 CoreType.exception.ref ∧
      v.findHandler ⟨7, 0⟩ 0 CoreType.exception.ref = .ok (.handled ⟨6, 0⟩ 5) := by
  let base : Operation := .pushFrame none (.system "base")
  let run : Operation := .pushFrame (some ⟨5, 0⟩) (.managed ⟨⟨23, 0⟩, 0⟩)
  let leaf : Operation := .pushFrame (some ⟨6, 0⟩) (.system "leaf")
  have hrun : (create {} {}).toOption.any fun v₀ =>
      (programImage "run" [⟨0, 0, 4, [], [5], [-1], []⟩]).toOption.any fun image =>
      image.encode.toOption.any fun bytes =>
      let loaded := stateAfter (Searcher.load {} bytes v₀)
      let v₁ := base.after loaded
      let v₂ := run.after v₁
      let v := (Operation.popFrame ⟨5, 0⟩).after (leaf.after v₂)
      decide (loaded.frames.slots.size ≤ 100) && decide (v₁.frames.slots.size ≤ 100) &&
        decide (v₂.frames.slots.size ≤ 100) && (v.frame? ⟨7, 0⟩).any (·.parent = some ⟨6, 0⟩) &&
        (v.frame? ⟨6, 0⟩).any (·.parent = some ⟨5, 0⟩) && (v.frame? ⟨5, 0⟩).isNone &&
        (v.findHandler ⟨7, 0⟩ 0 CoreType.exception.ref).toOption =
          some (.handled ⟨6, 0⟩ 5) := by
    decide +kernel
  obtain ⟨v₀, hcreated, hrun⟩ := (Option.any_eq_true _ _).1 hrun
  obtain ⟨image, _, hrun⟩ := (Option.any_eq_true _ _).1 hrun
  obtain ⟨bytes, _, hrun⟩ := (Option.any_eq_true _ _).1 hrun
  have hcreated := toOption_eq_some.1 hcreated
  simp only [Bool.and_eq_true, decide_eq_true_eq, Option.isNone_iff_eq_none] at hrun
  obtain ⟨⟨⟨⟨⟨⟨h₀, h₁⟩, h₂⟩, hleaf⟩, hcaller⟩, hgone⟩, hfound⟩ := hrun
  have hpushed := ((((Proceeds.refl v₀).loadWith {} bytes).operate base
    (regular_pushFrame h₀ _ _)).operate run (regular_pushFrame h₁ _ _)).operate leaf
    (regular_pushFrame h₂ _ _)
  have hproceeds := hpushed.operate (.popFrame ⟨5, 0⟩) fun _ => by decide
  obtain ⟨f, hf, hparent⟩ := (Option.any_eq_true _ _).1 hleaf
  obtain ⟨g, hg, hparent'⟩ := (Option.any_eq_true _ _).1 hcaller
  have hsearch := toOption_eq_some.1 hfound
  obtain ⟨chain, gone, hchain, _, hhandled, _⟩ :=
    search_outcome hcreated hproceeds hf 0 CoreType.exception.ref
  obtain ⟨i, j, k, hhandler⟩ := hhandled _ _ hsearch
  have hends := CallChain.gone hgone
  rw [← of_decide_eq_true hparent'] at hends
  have hends := CallChain.frame hg hends
  rw [← of_decide_eq_true hparent, of_decide_eq_true hparent'] at hends
  have hends := CallChain.frame hf hends
  obtain ⟨rfl, rfl⟩ := hchain.unique hends
  exact ⟨v₀, _, _, hcreated, hproceeds, hends, ⟨i, j, k, _, _, hhandler⟩, hsearch⟩

/-! ## A caller that was removed -/

/-- A frame that is popped was there, and goes. -/
theorem popFrame_eq_ok {g : Frame} (h : Run.popFrame p v = .ok g w) :
    v.frames.contains p ∧ w = { v with frames := (v.frames.remove p).2 } := by
  unfold Run.popFrame at h
  rw [get_bind] at h
  split at h
  · cases h
  · rcases hremove : v.frames.remove p with ⟨found, frames⟩
    rw [hremove] at h
    cases found with
    | none => cases h
    | some f =>
        cases h
        refine ⟨by_contra fun hgone => ?_, rfl⟩
        cases (remove_of_not_contains hgone).symm.trans hremove

/-- Once its caller was removed, the chain of a frame is the frame alone. -/
theorem callChain_popped (hs : v.frames.Sound) (hf : v.frame? ref = some f)
    (hparent : f.parent = some p) (hne : ref ≠ p) {g : Frame} (h : Run.popFrame p v = .ok g w) :
    w.frame? ref = some f ∧ w.CallChain (some ref) [(ref, f)] (some p) := by
  obtain ⟨hlive, rfl⟩ := popFrame_eq_ok h
  obtain ⟨e, he⟩ := contains_iff.1 hlive
  obtain ⟨hvacated, _⟩ := remove_spec hs he
  obtain ⟨owner, he'⟩ := get?_eq_some_iff.1 hf
  have hindex : ref.index ≠ p.index := fun heq => hne <| by
    rw [← handleAt_eq_of_entry he', heq, handleAt_eq_of_entry he]
  have hf' : (v.frames.remove p).2.get? ref = some f := by
    rw [get?, hvacated.entry?_eq, if_neg hindex, he']
    rfl
  have hgone : (v.frames.remove p).2.get? p = none := by
    rw [get?, hvacated.entry?_eq, if_pos rfl]
    rfl
  refine ⟨hf', .frame hf' ?_⟩
  rw [hparent]
  exact .gone hgone

/-- A frame whose caller was removed fails to report an exception that it has no handler for. -/
theorem search_fails_popped {config : VaultConfig} {registry : NativeRegistry}
    (hcreated : create config registry = .ok v₀) (h : v₀.Proceeds v) (hf : v.frame? ref = some f)
    (hparent : f.parent = some p) {g : Frame} (hpop : Run.popFrame p v = .ok g w)
    (hnone : ∀ j k handler, ¬ w.CatchesAt thrown f address j k handler) :
    w.findHandler ref address thrown = .error (.fatal (.frameGone p)) := by
  have hlevelled := h.levelled (sound_create hcreated) (levelled_create hcreated)
  have hne : ref ≠ p := by
    -- a frame is not its own caller, because it is one level above that
    rintro rfl
    have hdeeper := hlevelled.frames.deeper hf hparent hf
    omega
  obtain ⟨hf', hchain⟩ := callChain_popped hlevelled.frames.sound hf hparent hne hpop
  have hw : w.Reachable := by
    have hafter : (Operation.popFrame p).after v = w := congrArg stateAfter hpop
    exact ⟨config, registry, v₀, hcreated, hafter ▸ h.reaches.operate (.popFrame p)⟩
  refine hchain.findHandler_of_not_caught hw hf' ?_
  rintro ⟨i, j, k, frame, handler, f', hplace, hcatches⟩
  cases i with
  | zero =>
      cases hplace
      exact hnone j k handler hcatches
  | succ i => cases hplace

/-- Two pushes and a pop leave a living frame for which the search fails. -/
theorem search_fails_orphan : ∃ (v₀ v : Vault) (f : Frame), create {} {} = .ok v₀ ∧
    v₀.Proceeds v ∧ v.frame? ⟨6, 0⟩ = some f ∧ f.parent = some ⟨5, 0⟩ ∧
      v.findHandler ⟨6, 0⟩ 0 CoreType.exception.ref = .error (.fatal (.frameGone ⟨5, 0⟩)) := by
  let outer : Operation := .pushFrame none (.system "outer")
  let inner : Operation := .pushFrame (some ⟨5, 0⟩) (.system "inner")
  have hrun : (create {} {}).toOption.any fun v₀ =>
      let v := inner.after (outer.after v₀)
      decide (v₀.frames.slots.size ≤ 100) && decide ((outer.after v₀).frames.slots.size ≤ 100) &&
        (v.frame? ⟨6, 0⟩).any (fun f => f.parent = some ⟨5, 0⟩ && f.method = .system "inner") &&
        (answerOf? (Run.popFrame ⟨5, 0⟩ v)).isSome := by
    decide +kernel
  obtain ⟨v₀, hcreated, hrun⟩ := (Option.any_eq_true _ _).1 hrun
  have hcreated := toOption_eq_some.1 hcreated
  simp only [Bool.and_eq_true, decide_eq_true_eq] at hrun
  obtain ⟨⟨⟨h₀, h₁⟩, hcalled⟩, hpopped⟩ := hrun
  obtain ⟨f, hf, hframe⟩ := (Option.any_eq_true _ _).1 hcalled
  simp only [Bool.and_eq_true, decide_eq_true_eq] at hframe
  obtain ⟨g, hg⟩ := Option.isSome_iff_exists.1 hpopped
  have hpop := eq_ok_of_answerOf? hg
  have hpushed := ((Proceeds.refl v₀).operate outer (regular_pushFrame h₀ _ _)).operate inner
    (regular_pushFrame h₁ _ _)
  have hframes := (hpushed.levelled (sound_create hcreated) (levelled_create hcreated)).frames
  have hlive := (callChain_popped hframes.sound hf hframe.1 (by decide) hpop).1
  refine ⟨v₀, _, f, hcreated, hpushed.operate (.popFrame ⟨5, 0⟩) fun _ => by decide, hlive,
    hframe.1, search_fails_popped hcreated hpushed hf hframe.1 hpop ?_⟩
  -- a system frame has no zones
  rintro j k handler ⟨z, hz, _⟩
  rw [zonesOf, hframe.2] at hz
  cases hz

end VaultKernel.Vault
