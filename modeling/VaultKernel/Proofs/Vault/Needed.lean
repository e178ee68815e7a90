import VaultKernel.Proofs.Arena.Slots
import VaultKernel.Proofs.Heap.Marking
import VaultKernel.Vault.Frames

/-!
# Needed objects

An object is needed if it is immortal, if a frame mentions it, or if a slot of a needed object
mentions it. A value mentions an object at any depth of nested elements. The collector works on
lists of handles instead; `needed_iff` says that what it can reach from the frames is what is
needed.
-/

namespace VaultKernel

/-- An object occurs in a value. -/
inductive Value.Mentions : Value → ObjectRef → Prop where
  | object (r : ObjectRef) : Mentions (.object r) r
  | element {items : List Value} {item : Value} {r : ObjectRef} :
      item ∈ items → item.Mentions r → Mentions (.elements items) r

/-- An object occurs in a frame. -/
inductive Frame.Mentions (f : Frame) (r : ObjectRef) : Prop where
  | returnValue : f.returnValue.Mentions r → Mentions f r
  | argument {value : Value} : value ∈ f.arguments → value.Mentions r → Mentions f r
  | stacked {value : Value} : value ∈ f.stack → value.Mentions r → Mentions f r
  | exception {x : FrameException} : f.exception = some x → x.value = r → Mentions f r

/-- A living object that must not go. -/
inductive Vault.Needed (v : Vault) : ObjectRef → Prop where
  | immortal {r : ObjectRef} {x : HeapHeader} : v.heap.header? r = some x → x.immortal → Needed v r
  | framed {r : ObjectRef} {ref : FrameRef} {f : Frame} :
      v.frame? ref = some f → f.Mentions r → v.heap.contains r → Needed v r
  | slotted {r q : ObjectRef} {o : Object} {value : Value} : Needed v r → v.heap.get? r = some o →
      value ∈ o.slots.toList → value.Mentions q → v.heap.contains q → Needed v q

/-! ## Handles of values and frames -/

/-- The handles of an element are among those of all elements. -/
theorem Value.mem_handlesOfAll {values : List Value} {value : Value} {r : ObjectRef}
    (hvalue : value ∈ values) (hr : r ∈ value.handles) : r ∈ handlesOfAll values := by
  induction values with
  | nil => cases hvalue
  | cons first rest ih =>
      rw [handlesOfAll, List.mem_append]
      rcases List.mem_cons.1 hvalue with rfl | hvalue
      · exact Or.inl hr
      · exact Or.inr (ih hvalue)

/-- What a value mentions is among its handles. -/
theorem Value.Mentions.mem_handles {value : Value} {r : ObjectRef} (h : value.Mentions r) :
    r ∈ value.handles := by
  induction h with
  | object r => simp [handles]
  | element hitem _ ih =>
      rw [handles]
      exact mem_handlesOfAll hitem ih

mutual

/-- The handles of a value are mentioned by it. -/
theorem Value.mentions_of_mem {r : ObjectRef} :
    ∀ {value : Value}, r ∈ value.handles → value.Mentions r
  | .object q, h => by
      rw [handles, List.mem_singleton] at h
      exact h ▸ .object q
  | .elements items, h => by
      rw [handles] at h
      obtain ⟨item, hitem, hr⟩ := Value.mentions_of_mem_all h
      exact .element hitem hr

/-- The handles of several values are mentioned by one of them. -/
theorem Value.mentions_of_mem_all {r : ObjectRef} :
    ∀ {values : List Value}, r ∈ handlesOfAll values → ∃ value ∈ values, value.Mentions r
  | [], h => by simp [handlesOfAll] at h
  | first :: rest, h => by
      rw [handlesOfAll, List.mem_append] at h
      rcases h with h | h
      · exact ⟨first, by simp, Value.mentions_of_mem h⟩
      · obtain ⟨value, hvalue, hr⟩ := Value.mentions_of_mem_all h
        exact ⟨value, by simp [hvalue], hr⟩

end

/-- The handles of several values are what they mention. -/
theorem Value.mem_handlesOfAll_iff {values : List Value} {r : ObjectRef} :
    r ∈ handlesOfAll values ↔ ∃ value ∈ values, value.Mentions r :=
  ⟨mentions_of_mem_all, fun ⟨_, hvalue, hr⟩ => mem_handlesOfAll hvalue hr.mem_handles⟩

/-- The handles of a frame are what it mentions. -/
theorem Frame.mem_handles_iff {f : Frame} {r : ObjectRef} : r ∈ f.handles ↔ f.Mentions r := by
  simp only [handles, List.mem_append, Value.mem_handlesOfAll_iff]
  constructor
  · rintro (((hr | ⟨_, hvalue, hr⟩) | ⟨_, hvalue, hr⟩) | hr)
    · exact .returnValue (Value.mentions_of_mem hr)
    · exact .argument hvalue hr
    · exact .stacked hvalue hr
    · cases hx : f.exception with
      | none => simp [hx] at hr
      | some x =>
          refine .exception hx ?_
          simpa [hx, eq_comm] using hr
  · rintro (hr | ⟨hvalue, hr⟩ | ⟨hvalue, hr⟩ | ⟨hx, rfl⟩)
    · exact Or.inl (Or.inl (Or.inl hr.mem_handles))
    · exact Or.inl (Or.inl (Or.inr ⟨_, hvalue, hr⟩))
    · exact Or.inl (Or.inr ⟨_, hvalue, hr⟩)
    · simp [hx]

namespace Vault

/-- The roots are what the frames mention. -/
theorem mem_roots_iff {v : Vault} {r : ObjectRef} :
    r ∈ v.roots ↔ ∃ ref f, v.frame? ref = some f ∧ f.Mentions r := by
  rw [roots, List.mem_flatMap]
  constructor
  · rintro ⟨⟨ref, f⟩, hmem, hr⟩
    exact ⟨ref, f, Arena.mem_toList_iff.1 hmem, Frame.mem_handles_iff.1 hr⟩
  · rintro ⟨ref, f, hframe, hr⟩
    exact ⟨(ref, f), Arena.mem_toList_iff.2 hframe, Frame.mem_handles_iff.2 hr⟩

/-- What a collection reaches from the frames is what is needed. -/
theorem needed_iff {v : Vault} {r : ObjectRef} : v.Needed r ↔ v.heap.Reached v.roots r := by
  constructor
  · intro h
    induction h with
    | immortal hx himmortal => exact .immortal hx himmortal
    | framed hframe hr hlive => exact .root (mem_roots_iff.2 ⟨_, _, hframe, hr⟩) hlive
    | slotted _ ho hvalue hq hlive ih =>
        exact .child ih ho (Value.mem_handlesOfAll hvalue hq.mem_handles) hlive
  · intro h
    induction h with
    | root hr hlive =>
        obtain ⟨ref, f, hframe, hmention⟩ := mem_roots_iff.1 hr
        exact .framed hframe hmention hlive
    | immortal hx himmortal => exact .immortal hx himmortal
    | child _ ho hc hlive ih =>
        obtain ⟨value, hvalue, hmention⟩ := Value.mem_handlesOfAll_iff.1 hc
        exact .slotted ih ho hvalue hmention hlive

end Vault

end VaultKernel
