import VaultKernel.Proofs.Heap.Collection

/-!
# Histories of a heap

A history leads from an empty heap through any operations to a heap and records, newest first, which
slots were taken and vacated. An operation that removes several objects vacates their slots in the
order of the living list. Every operation keeps the invariant `Kept`, so every history does.
-/

namespace VaultKernel.Heap

variable {α : Type}

/-- What happened to a slot. -/
inductive SlotEvent where
  | allocated (slot : Nat)
  | removed (slot : Nat)
  deriving DecidableEq, Repr

/-- The living slots of a heap that another one has vacated, in order. -/
def vacated (h h' : Heap α) : List Nat := h.occupied.filter fun i => (h'.entryAt? i).isNone

/-- Earlier events followed by the removals of slots in the given order. -/
def afterRemoving (slots : List Nat) (events : List SlotEvent) : List SlotEvent :=
  slots.reverse.map .removed ++ events

/-- A heap with what happened to its slots since it was empty, newest first. -/
inductive History [Traceable α] (limits : HeapLimits) : Heap α → List SlotEvent → Prop where
  | start : History limits (.empty limits) []
  | allocated {h h' events} (value : α) (size : UInt64) (immortal : Bool) {r : ObjectRef} :
      History limits h events → h.insert value size immortal = .ok r h' →
      History limits h' (.allocated r.index :: events)
  | refused {h h' events} (value : α) (size : UInt64) (immortal : Bool) {e : HeapError} :
      History limits h events → h.insert value size immortal = .error e h' →
      History limits h' events
  | freed {h h' events} {value : α} (r : ObjectRef) :
      History limits h events → h.free r = .ok value h' →
      History limits h' (.removed r.index :: events)
  | stale {h h' events} (r : ObjectRef) {e : HeapError} :
      History limits h events → h.free r = .error e h' → History limits h' events
  | freeWhere {h events} (p : α → Bool) : History limits h events →
      History limits (h.freeWhere p).2 (afterRemoving (vacated h (h.freeWhere p).2) events)
  | freeMortals {h events} : History limits h events →
      History limits h.freeMortals.2 (afterRemoving (vacated h h.freeMortals.2) events)
  | collect {h events} (roots : List ObjectRef) : History limits h events →
      History limits (h.collect roots).2 (afterRemoving (vacated h (h.collect roots).2) events)
  | modify {h events} (r : ObjectRef) (f : α → α) :
      History limits h events → History limits (h.modify r f) events

/-! ## Order of events -/

/-- An event happened after the last time that another one did. -/
def Later (events : List SlotEvent) (e f : SlotEvent) : Prop := events.idxOf e < events.idxOf f

/-- An event stays later than another one if a third one happens. -/
theorem Later.cons {events : List SlotEvent} {e f g : SlotEvent} (hlater : Later events e f)
    (hf : g ≠ f) : Later (g :: events) e f := by
  have hf' : (g == f) = false := by simpa using hf
  unfold Later at *
  rw [List.idxOf_cons, List.idxOf_cons, hf', cond_false]
  cases g == e <;> simp only [cond_true, cond_false] <;> omega

/-- The newest event is later than every other. -/
theorem Later.newest {events : List SlotEvent} {e f : SlotEvent} (hne : e ≠ f) :
    Later (e :: events) e f := by
  have hf : (e == f) = false := by simpa using hne
  unfold Later
  rw [List.idxOf_cons_self, List.idxOf_cons, hf, cond_false]
  omega

/-- The living slots are in the order of their allocation and the empty slots in the opposite order
of their removal. -/
structure Ordered (events : List SlotEvent) (live vacant : List Nat) : Prop where
  allocations : live.Pairwise fun i j => Later events (.allocated j) (.allocated i)
  removals : vacant.Pairwise fun i j => Later events (.removed i) (.removed j)
  /-- A living slot was not removed since it was allocated. -/
  alive : ∀ i ∈ live, Later events (.allocated i) (.removed i)
  /-- An empty slot was not allocated since it was removed. -/
  gone : ∀ i ∈ vacant, Later events (.removed i) (.allocated i)

/-- An allocation is the newest of the living, and takes the slot that was emptied last. -/
theorem Ordered.allocate {events : List SlotEvent} {live vacant : List Nat} {k : Nat}
    (ho : Ordered events live vacant) (hlive : k ∉ live) (hvacant : k ∉ vacant.tail) :
    Ordered (.allocated k :: events) (live ++ [k]) vacant.tail := by
  have hne : ∀ i ∈ live, SlotEvent.allocated k ≠ .allocated i := by
    intro i hi heq
    cases heq
    exact hlive hi
  refine ⟨?_, ?_, ?_, ?_⟩
  · rw [List.pairwise_append]
    refine ⟨?_, List.pairwise_singleton _ _, ?_⟩
    · exact ho.allocations.imp_of_mem fun hi _ hlater => hlater.cons (hne _ hi)
    · intro i hi j hj
      rw [List.mem_singleton.1 hj]
      exact Later.newest (hne i hi)
  · exact (ho.removals.sublist (List.tail_sublist _)).imp fun hlater => hlater.cons (by simp)
  · intro i hi
    rcases List.mem_append.1 hi with hi | hi
    · exact (ho.alive i hi).cons (by simp)
    · rw [List.mem_singleton.1 hi]
      exact Later.newest (by simp)
  · intro i hi
    refine (ho.gone i (List.mem_of_mem_tail hi)).cons ?_
    intro heq
    cases heq
    exact hvacant hi

/-- The slot of a removed object is the one that was emptied last. -/
theorem Ordered.remove {events : List SlotEvent} {live vacant : List Nat} {k : Nat}
    (ho : Ordered events live vacant) (hnodup : live.Nodup) (hvacant : k ∉ vacant) :
    Ordered (.removed k :: events) (live.erase k) (k :: vacant) := by
  have hne : ∀ i ∈ vacant, SlotEvent.removed k ≠ .removed i := by
    intro i hi heq
    cases heq
    exact hvacant hi
  refine ⟨?_, ?_, ?_, ?_⟩
  · exact (ho.allocations.sublist List.erase_sublist).imp fun hlater => hlater.cons (by simp)
  · rw [List.pairwise_cons]
    refine ⟨fun j hj => Later.newest (hne j hj), ?_⟩
    exact ho.removals.imp_of_mem fun _ hj hlater => hlater.cons (hne _ hj)
  · intro i hi
    refine (ho.alive i (List.mem_of_mem_erase hi)).cons ?_
    intro heq
    cases heq
    exact hnodup.not_mem_erase hi
  · intro i hi
    rcases List.mem_cons.1 hi with rfl | hi
    · exact Later.newest (by simp)
    · exact (ho.gone i hi).cons (by simp)

/-- Slots that are removed in their order are emptied in that order. -/
theorem Ordered.removeAll {doomed : List Nat} {events : List SlotEvent} {live vacant : List Nat}
    (ho : Ordered events live vacant) (hsub : doomed ⊆ live) (hdoomed : doomed.Nodup)
    (hnodup : live.Nodup) (hdisjoint : ∀ i ∈ live, i ∉ vacant) :
    Ordered (afterRemoving doomed events) (live.filter (· ∉ doomed))
      (doomed.reverse ++ vacant) := by
  induction doomed generalizing events live vacant with
  | nil => simpa [afterRemoving] using ho
  | cons i rest ih =>
      obtain ⟨hfresh, hrest⟩ := List.nodup_cons.1 hdoomed
      have hi : i ∈ live := hsub (by simp)
      have hstep : rest ⊆ live.erase i := by
        intro j hj
        have hji : j ≠ i := fun heq => hfresh (heq ▸ hj)
        exact (List.mem_erase_of_ne hji).2 (hsub (by simp [hj]))
      -- one removal is one event, and the next ones come after it
      have hnext := ih (ho.remove hnodup (hdisjoint i hi)) hstep hrest (hnodup.erase i) ?_
      · rw [filter_erase hnodup] at hnext
        simpa [afterRemoving] using hnext
      · intro j hj hmem
        rcases List.mem_cons.1 hmem with rfl | hmem
        · exact hnodup.not_mem_erase hj
        · exact hdisjoint j (List.mem_of_mem_erase hj) hmem

/-! ## What every operation keeps -/

/-- The invariant of heaps: the lists, counters, colours and events agree. -/
structure Kept (h : Heap α) (events : List SlotEvent) (live vacant : List Nat) : Prop where
  tidy : Tidy h live vacant
  white : AllWhite h
  ordered : Ordered events live vacant

/-- No slot is both living and empty. -/
theorem Kept.disjoint {h : Heap α} {events : List SlotEvent} {live vacant : List Nat}
    (hk : Kept h events live vacant) : ∀ i ∈ live, i ∉ vacant := by
  intro i hi hmem
  have hsome := (hk.tidy.living.mem_iff i).1 hi
  rw [(hk.tidy.vacancies.unoccupied i hmem).2] at hsome
  cases hsome

/-- If no white object was coloured and none came coloured, all are white. -/
theorem AllWhite.of_bare? {h h' : Heap α} (hwhite : AllWhite h)
    (hview : ∀ r e, h'.bare? r = some e → h.bare? r = some e ∨ e.header.mark = .white) :
    AllWhite h' := by
  intro r mark hmark
  rw [mark?_eq, Option.map_eq_some_iff] at hmark
  obtain ⟨e, he, rfl⟩ := hmark
  rcases hview r e.bare (by rw [bare?, he]; rfl) with hold | hnew
  · rw [bare?, Option.map_eq_some_iff] at hold
    obtain ⟨e', he', hbare⟩ := hold
    have hmark' := hwhite r e'.header.mark (by rw [mark?_eq, he']; rfl)
    have hsame : e'.bare.header.mark = e.bare.header.mark := by rw [hbare]
    exact hsame.symm.trans hmark'
  · exact hnew

/-- A removal colours nothing. -/
theorem AllWhite.remove {h : Heap α} (hwhite : AllWhite h) (i : Nat) : AllWhite (h.remove i) := by
  refine hwhite.of_bare? fun r e he => Or.inl ?_
  rw [bare?_remove] at he
  split at he
  · cases he
  · exact he

/-- A row of removals colours nothing. -/
theorem AllWhite.removeAll {doomed : List Nat} {h : Heap α} (hwhite : AllWhite h) :
    AllWhite (doomed.foldl Heap.remove h) := by
  induction doomed generalizing h with
  | nil => exact hwhite
  | cons i rest ih => exact ih (hwhite.remove i)

/-- An allocation keeps the invariant and records its slot. -/
theorem Kept.allocate {h h' : Heap α} {events : List SlotEvent} {live vacant : List Nat} {value : α}
    {size : UInt64} {immortal : Bool} {r : ObjectRef} (hk : Kept h events live vacant)
    (hinsert : h.insert value size immortal = .ok r h') :
    Kept h' (.allocated r.index :: events) (live ++ [r.index]) vacant.tail := by
  obtain ⟨taken, htake, _, _⟩ := insert_eq_ok hinsert
  obtain ⟨_, _, _, _, hnone, hvacant, _⟩ := hk.tidy.takeSlot? htake
  refine ⟨hk.tidy.insert hinsert, ?_, hk.ordered.allocate ?_ hvacant⟩
  · refine hk.white.of_bare? fun q e he => ?_
    rw [bare?_insert hk.tidy.toThreads hinsert] at he
    split at he
    · -- a new object is white
      cases he
      exact Or.inr rfl
    · exact Or.inl he
  · rw [hk.tidy.living.mem_iff, hnone]
    simp

/-- A removal keeps the invariant and records its slot. -/
theorem Kept.remove {h : Heap α} {events : List SlotEvent} {live vacant : List Nat} {i : Nat}
    (hk : Kept h events live vacant) (hi : i ∈ live) :
    Kept (h.remove i) (.removed i :: events) (live.erase i) (i :: vacant) :=
  ⟨hk.tidy.remove hi, hk.white.remove i,
    hk.ordered.remove hk.tidy.living.nodup (hk.disjoint i hi)⟩

/-- A change of the value behind a handle keeps the invariant. -/
theorem Kept.modify {h : Heap α} {events : List SlotEvent} {live vacant : List Nat}
    (hk : Kept h events live vacant) (r : ObjectRef) (f : α → α) :
    Kept (h.modify r f) events live vacant := by
  unfold Heap.modify
  split
  · next hr =>
      refine ⟨hk.tidy.modifyAt _ _ fun _ => ⟨rfl, rfl⟩, ?_, hk.ordered⟩
      intro q mark hmark
      rw [mark?_eq, entry?_modifyAt h hr] at hmark
      split at hmark
      · rw [Option.map_map] at hmark
        exact hk.white q mark (by rw [mark?_eq]; exact hmark)
      · exact hk.white q mark (by rw [mark?_eq]; exact hmark)
  · exact hk

/-- The slots that an operation vacates are those that it takes out of the living list. -/
theorem vacated_eq {h h' : Heap α} {live : List Nat} {p : Nat → Bool} (hl : Living h live)
    (hl' : Living h' (live.filter (· ∉ live.filter p))) : vacated h h' = live.filter p := by
  rw [vacated, hl.occupied_eq]
  apply List.filter_congr
  intro i hi
  have hmem := hl'.mem_iff i
  rw [List.mem_filter] at hmem
  cases hentry : h'.entryAt? i with
  | none => simpa [hentry, hi] using hmem
  | some e => simpa [hentry, hi] using hmem

/-- An operation that removes the slots of the living list that satisfy `p`, in order, and changes
nothing else about the lists. -/
theorem Kept.bulk {h h' : Heap α} {events : List SlotEvent} {live vacant : List Nat}
    (p : Nat → Bool) (hk : Kept h events live vacant)
    (htidy : Tidy h' (live.filter (· ∉ live.filter p)) ((live.filter p).reverse ++ vacant))
    (hwhite : AllWhite h') :
    Kept h' (afterRemoving (vacated h h') events) (live.filter (· ∉ live.filter p))
      ((live.filter p).reverse ++ vacant) := by
  have hl := hk.tidy.living
  refine ⟨htidy, hwhite, ?_⟩
  rw [vacated_eq hl htidy.living]
  exact hk.ordered.removeAll (List.filter_subset_self _) (hl.nodup.filter _) hl.nodup hk.disjoint

/-- Freeing whatever satisfies a test keeps the invariant and records what it vacated. -/
theorem Kept.freeWhere {h : Heap α} {events : List SlotEvent} {live vacant : List Nat}
    (hk : Kept h events live vacant) (p : α → Bool) :
    ∃ live' vacant', Kept (h.freeWhere p).2
      (afterRemoving (vacated h (h.freeWhere p).2) events) live' vacant' := by
  have hl := hk.tidy.living
  have htidy := hk.tidy.removeAll (List.filter_subset_self live) (hl.nodup.filter (h.isDoomed p))
  refine ⟨_, _, Kept.bulk (h.isDoomed p) hk ?_ ?_⟩
  · rw [freeWhere_eq hl]
    exact htidy
  · rw [freeWhere_eq hl]
    exact hk.white.removeAll

/-- A collection keeps the invariant and records what it vacated. -/
theorem Kept.collect [Traceable α] {h : Heap α} {events : List SlotEvent} {live vacant : List Nat}
    (hk : Kept h events live vacant) (roots : List ObjectRef) :
    ∃ live' vacant', Kept (h.collect roots).2
      (afterRemoving (vacated h (h.collect roots).2) events) live' vacant' := by
  have hl := hk.tidy.living
  obtain ⟨_, htidy, hreached, hgone⟩ := collect_spec hk.tidy hk.white roots
  have hgarbage : h.garbageOf roots =
      live.filter ((h.markFrom roots).isGarbage ∘ h.handleAt) := by
    rw [garbageOf, hl.handles_eq, List.filter_map, List.map_map]
    exact List.map_id _
  rw [hgarbage] at htidy
  refine ⟨_, _, Kept.bulk _ hk htidy ?_⟩
  refine hk.white.of_bare? fun r e he => Or.inl ?_
  by_cases hr : Reached h roots r
  · exact hreached r hr ▸ he
  · rw [hgone r hr] at he
    cases he

/-- Every history keeps the invariant. -/
theorem History.kept [Traceable α] {limits : HeapLimits} {h : Heap α} {events : List SlotEvent}
    (hh : History limits h events) : ∃ live vacant, Kept h events live vacant := by
  induction hh with
  | start =>
      refine ⟨[], [], Tidy.empty limits, ?_, ⟨.nil, .nil, by simp, by simp⟩⟩
      intro r mark hmark
      rw [mark?_eq, Option.map_eq_some_iff] at hmark
      obtain ⟨e, he, _⟩ := hmark
      simp [entry?_eq, entryAt?_eq, Heap.empty] at he
  | allocated _ _ _ _ hinsert ih =>
      obtain ⟨live, vacant, hk⟩ := ih
      exact ⟨_, _, hk.allocate hinsert⟩
  | refused _ _ _ _ hinsert ih => exact insert_eq_error hinsert ▸ ih
  | freed r _ hfree ih =>
      obtain ⟨live, vacant, hk⟩ := ih
      obtain ⟨hget, rfl⟩ := free_eq_ok hfree
      obtain ⟨e, he, _⟩ := Option.map_eq_some_iff.1 hget
      have hi : r.index ∈ live := by
        rw [hk.tidy.living.mem_iff, (entry?_eq_some_iff.1 he).2]
        rfl
      exact ⟨_, _, hk.remove hi⟩
  | stale _ _ hfree ih => exact free_eq_error hfree ▸ ih
  | freeWhere p _ ih =>
      obtain ⟨live, vacant, hk⟩ := ih
      exact hk.freeWhere p
  | freeMortals _ ih =>
      obtain ⟨live, vacant, hk⟩ := ih
      exact hk.freeWhere _
  | collect roots _ ih =>
      obtain ⟨live, vacant, hk⟩ := ih
      exact hk.collect roots
  | modify r f _ ih =>
      obtain ⟨live, vacant, hk⟩ := ih
      exact ⟨live, vacant, hk.modify r f⟩

end VaultKernel.Heap
