import VaultKernel.Proofs.Vault.Handlers

/-!
# The zone that is chosen

Of the zones of a frame that have a handler for an exception, the search takes the one that the
table lists first, whichever is the innermost. `handler_zone` says when the two are the same: no
zone that comes later and has a handler lies inside the chosen one. This is so for all tables that
list inner zones before outer ones, and `findHandler_outer` is a table that does not.
-/

namespace VaultKernel

open Arena

/-- The zone lies within the other one, and they do not cover the same addresses. -/
structure ProtectedZone.Inside (z outer : ProtectedZone) : Prop where
  start : outer.start.toInt ≤ z.start.toInt
  stop : z.stop.toInt ≤ outer.stop.toInt
  differ : (z.start, z.stop) ≠ (outer.start, outer.stop)

namespace Vault

variable {v : Vault} {thrown : ClassRef} {ref frame : FrameRef} {f : Frame} {address : UInt32}
  {z : ProtectedZone} {handler : Int32}

/-- No zone of the frame that has a handler for the exception lies inside this one. -/
def Innermost (v : Vault) (thrown : ClassRef) (f : Frame) (address : UInt32) (z : ProtectedZone) :
    Prop :=
  ∀ z' ∈ v.zonesOf f, ∀ k handler, v.Guards thrown address z' k handler → ¬ z'.Inside z

/-- The first frame is searched at the given address and every other one at its own. -/
theorem handlerFrom_eq_some {fuel : Nat}
    (h : v.handlerFrom thrown fuel ref address = .ok (some (frame, handler))) :
    ∃ f thrownAt, v.frame? frame = some f ∧
      (frame = ref ∧ thrownAt = address ∨ thrownAt = f.address) ∧
      v.handlerInFrame? thrown f thrownAt = some handler := by
  induction fuel generalizing ref address with
  | zero => cases h
  | succ fuel ih =>
      cases hf : v.frame? ref with
      | none =>
          rw [handlerFrom, frameOf, hf] at h
          cases h
      | some f =>
          rw [handlerFrom_succ hf] at h
          split at h
          · next hhandler =>
              cases h
              exact ⟨f, address, hf, Or.inl ⟨rfl, rfl⟩, hhandler⟩
          · split at h
            · next p callerAddress hnext =>
                obtain ⟨q, _, hq⟩ := Option.bind_eq_some_iff.1 hnext
                obtain ⟨caller, hcaller, heq⟩ := Option.map_eq_some_iff.1 hq
                cases heq
                obtain ⟨g, thrownAt, hg, hwhere, hhandler⟩ := ih h
                refine ⟨g, thrownAt, hg, Or.inr ?_, hhandler⟩
                rcases hwhere with ⟨rfl, rfl⟩ | hown
                · cases hcaller.symm.trans hg
                  rfl
                · exact hown
            · cases h

/-- What comes before the chosen zone has no handler, so only what comes later can be inside it. -/
theorem innermost_iff {before after : List ProtectedZone}
    (hzones : v.zonesOf f = before ++ z :: after)
    (hbefore : ∀ z' ∈ before, ∀ k handler, ¬ v.Guards thrown address z' k handler) :
    v.Innermost thrown f address z ↔
      ∀ z' ∈ after, ∀ k handler, v.Guards thrown address z' k handler → ¬ z'.Inside z := by
  rw [Innermost, hzones]
  refine ⟨fun h z' hz' => h z' (by simp [hz']), fun h z' hz' k handler hguards => ?_⟩
  rcases List.mem_append.1 hz' with hz' | hz'
  · exact absurd hguards (hbefore z' hz' k handler)
  · rcases List.mem_cons.1 hz' with rfl | hz'
    · exact fun hinside => hinside.differ rfl
    · exact h z' hz' k handler hguards

/-- A handler is that of the first zone in the table that has one. It is the innermost one with a
handler exactly if none that comes later lies inside it; so it always is if the table lists inner
zones before outer ones. -/
theorem handler_zone (hv : v.Reachable)
    (h : v.findHandler ref address thrown = .ok (.handled frame handler)) :
    ∃ f thrownAt before z after k, v.frame? frame = some f ∧
      (frame = ref ∧ thrownAt = address ∨ thrownAt = f.address) ∧
      v.zonesOf f = before ++ z :: after ∧ v.Guards thrown thrownAt z k handler ∧
      (∀ z' ∈ before, ∀ k' handler', ¬ v.Guards thrown thrownAt z' k' handler') ∧
      (v.Innermost thrown f thrownAt z ↔
        ∀ z' ∈ after, ∀ k' handler', v.Guards thrown thrownAt z' k' handler' → ¬ z'.Inside z) ∧
      ((v.zonesOf f).Pairwise (fun z z' => ¬ z'.Inside z) → v.Innermost thrown f thrownAt z) := by
  have hfrom : v.handlerFrom thrown (v.frames.slots.size + 1) ref address =
      .ok (some (frame, handler)) := by
    obtain ⟨found, hfound, hrest⟩ := bind_eq_ok.1 h
    cases found with
    | none =>
        obtain ⟨_, _, hreport⟩ := bind_eq_ok.1 hrest
        cases hreport
    | some found =>
        cases hrest
        exact hfound
  obtain ⟨f, thrownAt, hf, hwhere, hhandler⟩ := handlerFrom_eq_some hfrom
  rw [handlerInFrame?_eq] at hhandler
  obtain ⟨before, z, after, hzones, hanswer, hnone⟩ := List.findSome?_eq_some_iff.1 hhandler
  obtain ⟨k, hguards, _⟩ := hv.zoneHandler?_first hanswer
  have hbefore : ∀ z' ∈ before, ∀ k' handler', ¬ v.Guards thrown thrownAt z' k' handler' := by
    intro z' hz' k' handler' hguards'
    have hsome := hv.isSome_zoneHandler? hguards'
    rw [hnone z' hz'] at hsome
    cases hsome
  have hiff := innermost_iff hzones hbefore
  refine ⟨f, thrownAt, before, z, after, k, hf, hwhere, hzones, hguards, hbefore, hiff,
    fun hsorted => hiff.2 fun z' hz' _ _ _ => ?_⟩
  rw [hzones] at hsorted
  exact (List.pairwise_cons.1 (List.pairwise_append.1 hsorted).2.1).1 z' hz'

/-- Loads a method with these zones and looks for the handler of an exception thrown at address 4 in
a new frame: whether the method has the table and the handler is found. -/
def chooses (zones : List Image.Zone) (table : List ProtectedZone) (handler : Int32) : Bool :=
  (create {} {}).toOption.any fun v₀ =>
    (programImage "run" zones).toOption.any fun image => image.encode.toOption.any fun bytes =>
      let push : Operation := .pushFrame none (.managed ⟨⟨23, 0⟩, 0⟩)
      let v := push.after (stateAfter (Searcher.load {} bytes v₀))
      (v.frame? ⟨5, 0⟩).any (fun f => v.zonesOf f = table && f.address = 0) &&
        (v.findHandler ⟨5, 0⟩ 4 CoreType.exception.ref).toOption = some (.handled ⟨5, 0⟩ handler)

/-- A search that answers in the method's vault does so in a reachable one. -/
theorem exists_of_chooses {zones : List Image.Zone} {table : List ProtectedZone}
    (h : chooses zones table handler) : ∃ (v : Vault) (f : Frame), v.Reachable ∧
      v.frame? ⟨5, 0⟩ = some f ∧ v.zonesOf f = table ∧ f.address = 0 ∧
      v.findHandler ⟨5, 0⟩ 4 CoreType.exception.ref = .ok (.handled ⟨5, 0⟩ handler) := by
  obtain ⟨v₀, hcreated, h⟩ := (Option.any_eq_true _ _).1 h
  obtain ⟨image, _, h⟩ := (Option.any_eq_true _ _).1 h
  obtain ⟨bytes, _, h⟩ := (Option.any_eq_true _ _).1 h
  simp only [Bool.and_eq_true, decide_eq_true_eq] at h
  obtain ⟨f, hf, hframe⟩ := (Option.any_eq_true _ _).1 h.1
  simp only [Bool.and_eq_true, decide_eq_true_eq] at hframe
  exact ⟨_, f, ⟨_, _, v₀, toOption_eq_some.1 hcreated, (reaches_load {} bytes v₀).operate _⟩, hf,
    hframe.1, hframe.2, toOption_eq_some.1 h.2⟩

/-- A table with the inner zone in front: its handler is chosen. -/
theorem handler_zone_sorted : ∃ (v : Vault) (f : Frame) (inner outer : ProtectedZone),
    v.Reachable ∧ v.frame? ⟨5, 0⟩ = some f ∧ v.zonesOf f = [inner, outer] ∧ inner.Inside outer ∧
      v.findHandler ⟨5, 0⟩ 4 CoreType.exception.ref = .ok (.handled ⟨5, 0⟩ 5) ∧
      v.Innermost CoreType.exception.ref f 4 inner := by
  let inner : ProtectedZone := ⟨2, 0, 6, [], [5], [none], []⟩
  let outer : ProtectedZone := ⟨0, 0, 10, [], [8], [none], []⟩
  have hchooses : chooses [⟨2, 0, 6, [], [5], [-1], []⟩, ⟨0, 0, 10, [], [8], [-1], []⟩]
      [inner, outer] 5 := by
    decide +kernel
  obtain ⟨v, f, hv, hf, htable, haddress, hhandled⟩ := exists_of_chooses hchooses
  have hinside : inner.Inside outer := ⟨by decide, by decide, by decide⟩
  obtain ⟨f', thrownAt, before, z, after, k, hf', hwhere, hzones, hguards, _, _, hsorted⟩ :=
    handler_zone hv hhandled
  cases hf.symm.trans hf'
  rw [htable] at hzones hsorted
  have hmem : z ∈ [inner, outer] := by simp [hzones]
  -- the outer zone has no handler at 5, and the frame itself is not at an address of the inner one
  have hz : z = inner := by
    refine (List.mem_cons.1 hmem).resolve_right fun houter => ?_
    rw [List.mem_singleton.1 houter] at hguards
    rcases k with _ | k
    · exact absurd (Option.some.inj hguards.2.2.1) (by decide)
    · cases hguards.2.2.1
  subst hz
  have hthrown : thrownAt = 4 := by
    rcases hwhere with ⟨_, hwhere⟩ | hown
    · exact hwhere
    · rw [hown, haddress] at hguards
      exact absurd hguards.1 (by decide)
  subst hthrown
  refine ⟨v, f, inner, outer, hv, hf, htable, hinside, hhandled, hsorted ?_⟩
  exact List.pairwise_pair.2 fun houtside => absurd houtside.start (by decide)

/-- A table with the outer zone in front: its handler is chosen, although the inner one has a
handler as well. -/
theorem findHandler_outer : ∃ (v : Vault) (f : Frame) (outer inner : ProtectedZone),
    v.Reachable ∧ v.frame? ⟨5, 0⟩ = some f ∧ v.zonesOf f = [outer, inner] ∧ inner.Inside outer ∧
      v.Guards CoreType.exception.ref 4 outer 0 8 ∧ v.Guards CoreType.exception.ref 4 inner 0 5 ∧
      v.findHandler ⟨5, 0⟩ 4 CoreType.exception.ref = .ok (.handled ⟨5, 0⟩ 8) ∧
      ¬ v.Innermost CoreType.exception.ref f 4 outer := by
  let outer : ProtectedZone := ⟨0, 0, 10, [], [8], [none], []⟩
  let inner : ProtectedZone := ⟨2, 0, 6, [], [5], [none], []⟩
  have hchooses : chooses [⟨0, 0, 10, [], [8], [-1], []⟩, ⟨2, 0, 6, [], [5], [-1], []⟩]
      [outer, inner] 8 := by
    decide +kernel
  obtain ⟨v, f, hv, hf, htable, _, hhandled⟩ := exists_of_chooses hchooses
  have hinside : inner.Inside outer := ⟨by decide, by decide, by decide⟩
  have houter : v.Guards CoreType.exception.ref 4 outer 0 8 :=
    ⟨by decide, by decide, rfl, none, rfl, nofun⟩
  have hinner : v.Guards CoreType.exception.ref 4 inner 0 5 :=
    ⟨by decide, by decide, rfl, none, rfl, nofun⟩
  refine ⟨v, f, outer, inner, hv, hf, htable, hinside, houter, hinner, hhandled,
    fun hinnermost => ?_⟩
  exact hinnermost inner (by simp [htable]) 0 5 hinner hinside

end Vault

end VaultKernel
