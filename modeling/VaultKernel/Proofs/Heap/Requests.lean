import Mathlib.Algebra.Group.Nat.Defs
import VaultKernel.Proofs.Heap.Handles

/-!
# Requests for memory

A request is granted if its bytes stay within the limit and there is a slot for the object. Then
they are counted, and if a counter has no room for them the process stops. Otherwise the error says
how many were asked for, and nothing changes. The handle that is issued led to nothing before, also
if a collection has just vacated its slot: that slot is in the next generation
(`Ages.not_contains`).
-/

namespace VaultKernel.Heap

variable {α : Type} {h h' h'' : Heap α} {value : α} {size : UInt64} {immortal : Bool}
  {r : ObjectRef}
  {live vacant : List Nat}

/-- Whether there are bytes and a slot for a request. -/
def grants (h : Heap α) (size : UInt64) : Bool := h.hasRoom size && h.takeSlot?.isSome

/-- The counters have room for a request. -/
theorem canCount_iff : h.canCount size ↔ h.stats.aliveBytes.toNat + size.toNat < 2 ^ 64 ∧
    h.stats.bytesRequested.toNat + size.toNat < 2 ^ 64 := decide_eq_true_iff

/-- A request that is granted succeeds if it can be counted. -/
theorem insert_of_grants (hgrants : h.grants size) (hcount : h.canCount size) (value : α)
    (immortal : Bool) : ∃ r h', h.insert value size immortal = .ok r h' := by
  obtain ⟨hroom, hslot⟩ := (Bool.and_eq_true _ _).mp hgrants
  obtain ⟨⟨index, taken⟩, htake⟩ := Option.isSome_iff_exists.1 hslot
  unfold Heap.insert
  rw [if_pos hroom, htake]
  dsimp only
  rw [if_pos hcount]
  exact ⟨_, _, rfl⟩

/-- A request that is granted but cannot be counted stops the process. -/
theorem insert_of_not_canCount (hgrants : h.grants size) (hcount : ¬ h.canCount size) (value : α)
    (immortal : Bool) : h.insert value size immortal = .error .overflow h := by
  obtain ⟨hroom, hslot⟩ := (Bool.and_eq_true _ _).mp hgrants
  obtain ⟨⟨index, taken⟩, htake⟩ := Option.isSome_iff_exists.1 hslot
  unfold Heap.insert
  rw [if_pos hroom, htake]
  dsimp only
  rw [if_neg hcount]

/-- What was stored could be counted. -/
theorem canCount_of_insert (hinsert : h.insert value size immortal = .ok r h') :
    h.canCount size := by
  unfold Heap.insert at hinsert
  split at hinsert
  · split at hinsert
    · split at hinsert
      · assumption
      · cases hinsert
    · cases hinsert
  · cases hinsert

/-- A request that is not granted is refused with the bytes asked for. -/
theorem insert_of_not_grants (hgrants : ¬ h.grants size) (value : α) (immortal : Bool) :
    h.insert value size immortal = .error (h.refusal size) h := by
  unfold Heap.insert
  split
  · next hroom =>
      have hnone : h.takeSlot? = none := by simpa [grants, hroom] using hgrants
      rw [hnone]
  · rfl

/-- An insertion counts one allocation. -/
theorem stats_insert (hinsert : h.insert value size immortal = .ok r h') :
    h'.stats = (h.countAllocation size).stats := by
  obtain ⟨taken, htake, _, rfl⟩ := insert_eq_ok hinsert
  have hstats : (taken.link r.index value size immortal).stats = h.stats :=
    (ends_link _ _ _ _ _).2.2.2.trans (head_takeSlot? htake).2.2
  simp only [countAllocation, hstats]

/-- Rewriting a value counts nothing. -/
theorem stats_modify (h : Heap α) (r : ObjectRef) (f : α → α) : (h.modify r f).stats = h.stats := by
  unfold modify
  split
  · exact stats_modifyAt h _ _
  · rfl

/-! ## Handles -/

/-- What was alive still is, or its slot was vacated once. -/
def Ages (h h' : Heap α) : Prop :=
  ∀ r, h.contains r → h'.contains r ∨
    h'.entryAt? r.index = none ∧ h'.generation? r.index = some (r.generation + 1)

/-- Colours do not age a heap. -/
theorem Ages.recolored (hages : Ages h h') (hc : Recolored h' h'') : Ages h h'' := by
  intro r hr
  refine (hages r hr).imp (fun hlive => ?_) fun ⟨hnone, hnext⟩ => ⟨?_, ?_⟩
  · rwa [hc.contains_eq]
  · rw [Option.eq_none_iff_forall_ne_some]
    intro e he
    -- an entry of the next generation would have been there before
    have hentry : h''.contains ⟨r.index, r.generation + 1⟩ := Option.isSome_iff_exists.2
      ⟨e, entry?_eq_some_iff.2 ⟨(hc.generations _).trans hnext, he⟩⟩
    rw [hc.contains_eq] at hentry
    obtain ⟨e', he'⟩ := Option.isSome_iff_exists.1 hentry
    cases hnone.symm.trans (entry?_eq_some_iff.1 he').2
  · exact (hc.generations _).trans hnext

/-- A heap in other colours is no older. -/
theorem Recolored.ages (hc : Recolored h h') : Ages h h' :=
  Ages.recolored (fun _ => Or.inl) hc

/-- A slot is vacated once, because only a slot with an entry is. -/
theorem Ages.remove (hages : Ages h h') {i : Nat} {e : HeapEntry α} (he : h'.entryAt? i = some e) :
    Ages h (h'.remove i) := by
  intro r hr
  obtain ⟨hgeneration, _⟩ := remove_frame he r.index
  have hentry := entryAt?_remove he r.index
  by_cases hindex : i = r.index
  · rcases hages r hr with hlive | ⟨hnone, _⟩
    · obtain ⟨x, hx⟩ := Option.isSome_iff_exists.1 hlive
      refine Or.inr ⟨by rw [hentry, if_pos hindex], ?_⟩
      rw [hgeneration, if_pos hindex, (entry?_eq_some_iff.1 hx).1]
      rfl
    · rw [hindex, hnone] at he
      cases he
  · refine (hages r hr).imp (fun hlive => ?_) fun ⟨hnone, hnext⟩ => ⟨?_, ?_⟩
    · rwa [contains_iff_bare?, bare?_remove, if_neg hindex, ← contains_iff_bare?]
    · rw [hentry, if_neg hindex, hnone, Option.map_none]
    · rw [hgeneration, if_neg hindex, hnext]

/-- A step of a sweep vacates one slot at most. -/
theorem Ages.sweepOne (hages : Ages h h') (n : Nat) (q : ObjectRef) :
    Ages h (Heap.sweepOne (n, h') q).2 := by
  by_cases hq : h'.contains q
  · obtain ⟨e, he⟩ := Option.isSome_iff_exists.1 hq
    rw [sweepOne_eq hq]
    split
    · exact hages.remove (entry?_eq_some_iff.1 he).2
    · exact hages.recolored (.setMark h' q .white)
  · have hnone : h'.header? q = none := by
      simpa [header?, contains] using hq
    have hsame : (Heap.sweepOne (n, h') q).2 = h' := by
      simp only [Heap.sweepOne, hnone]
    rwa [hsame]

/-- A sweep vacates each slot once at most. -/
theorem Ages.sweep (hages : Ages h h') (rs : List ObjectRef) : Ages h (h'.sweep rs).2 :=
  List.foldlRecOn (motive := fun state : Nat × Heap α => Ages h state.2) rs _ hages
    fun ⟨n, _⟩ hstate q _ => hstate.sweepOne n q

/-- A collection vacates each slot once at most. -/
theorem ages_collect [Traceable α] (ht : Tidy h live vacant) (hwhite : AllWhite h)
    (roots : List ObjectRef) : Ages h (h.collect roots).2 :=
  (markFrom_white_iff ht hwhite roots).1.ages.sweep h.handles

/-- A new handle led to nothing before. -/
theorem Ages.not_contains (hages : Ages h h') (ht : Threads h' live vacant)
    (hinsert : h'.insert value size immortal = .ok r h'') : ¬ h.contains r := by
  intro hr
  rcases hages r hr with hlive | ⟨_, hnext⟩
  · exact not_contains_of_insert ht hinsert hlive
  · obtain ⟨taken, htake, hgeneration, _⟩ := insert_eq_ok hinsert
    rw [generation?_takeSlot?_self htake, hnext, Option.getD_some] at hgeneration
    -- no generation is its own successor
    grind

end VaultKernel.Heap
