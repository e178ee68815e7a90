import VaultKernel.Proofs.Heap.Marking

/-!
# Collections

A collection marks and then sweeps the objects that were alive before it. `collect_spec` says what
comes out: an object that can be reached is as it was, white, every other one is gone, and the
living list is the old one without the slots of those that are gone.
-/

namespace VaultKernel.Heap

variable {α : Type} [Traceable α]

/-- What a collection with the given roots removes: the slots of garbage, in order. -/
def garbageOf (h : Heap α) (roots : List ObjectRef) : List Nat :=
  (h.handles.filter (h.markFrom roots).isGarbage).map (·.index)

/-- After marking, the garbage is what cannot be reached. -/
theorem isGarbage_markFrom {h : Heap α} {live vacant : List Nat} (ht : Tidy h live vacant)
    (hwhite : AllWhite h) (roots : List ObjectRef) {r : ObjectRef} (hr : h.contains r) :
    (h.markFrom roots).isGarbage r ↔ ¬ Reached h roots r := by
  obtain ⟨hcolors, hmarks⟩ := markFrom_white_iff ht hwhite roots
  obtain ⟨e, he⟩ := Option.isSome_iff_exists.1 hr
  obtain ⟨e', he'⟩ := Option.isSome_iff_exists.1 (hcolors.contains_eq r ▸ hr)
  have himmortal : e'.header.immortal = e.header.immortal := by
    have heq := hcolors.map_eq r (f := fun e => e.header.immortal) fun _ => rfl
    simpa [he, he'] using heq
  have hmark : e'.header.mark = .white ↔ ¬ Reached h roots r := by
    rw [← hmarks r hr, mark?_eq, he']
    simp
  simp only [isGarbage, bare?, he', Option.map_some, Bool.and_eq_true, Bool.not_eq_true',
    decide_eq_true_eq]
  constructor
  · intro hgarbage
    exact hmark.1 hgarbage.2
  · -- immortal objects are roots, so what cannot be reached is not one
    intro hreached
    refine ⟨?_, hmark.2 hreached⟩
    show e'.header.immortal = false
    rw [himmortal, ← Bool.not_eq_true]
    intro h'
    exact hreached (.immortal (by rw [header?, he]; rfl) h')

/-- A living object is in a slot of garbage exactly if it cannot be reached. -/
theorem mem_garbageOf_iff {h : Heap α} {live vacant : List Nat} (ht : Tidy h live vacant)
    (hwhite : AllWhite h) (roots : List ObjectRef) {r : ObjectRef} (hr : h.contains r) :
    r.index ∈ h.garbageOf roots ↔ ¬ Reached h roots r := by
  rw [← isGarbage_markFrom ht hwhite roots hr, garbageOf, List.mem_map]
  constructor
  · rintro ⟨q, hq, hindex⟩
    obtain ⟨hmem, hgarbage⟩ := List.mem_filter.1 hq
    have hq' := (ht.living.mem_handles_iff q).1 hmem
    obtain ⟨e, he⟩ := Option.isSome_iff_exists.1 hr
    obtain ⟨e', he'⟩ := Option.isSome_iff_exists.1 hq'
    have heq : q = r := by
      rw [← handleAt_eq_of_entry he, ← handleAt_eq_of_entry he', hindex]
    exact heq ▸ hgarbage
  · intro hgarbage
    exact ⟨r, List.mem_filter.2 ⟨(ht.living.mem_handles_iff r).2 hr, hgarbage⟩, rfl⟩

/-- The result of a collection: the count, the two lists, and each object. -/
theorem collect_spec {h : Heap α} {live vacant : List Nat} (ht : Tidy h live vacant)
    (hwhite : AllWhite h) (roots : List ObjectRef) :
    (h.collect roots).1 = (h.garbageOf roots).length ∧
      Tidy (h.collect roots).2 (live.filter (· ∉ h.garbageOf roots))
        ((h.garbageOf roots).reverse ++ vacant) ∧
      (∀ r, Reached h roots r → (h.collect roots).2.bare? r = h.bare? r) ∧
      ∀ r, ¬ Reached h roots r → (h.collect roots).2.bare? r = none := by
  obtain ⟨hcolors, _⟩ := markFrom_white_iff ht hwhite roots
  have hmarked := hcolors.tidy live vacant ht
  have hlive : ∀ r ∈ h.handles, (h.markFrom roots).contains r := by
    intro r hr
    rw [hcolors.contains_eq]
    exact (ht.living.mem_handles_iff r).1 hr
  obtain ⟨hcount, htidy, hview⟩ := sweep_spec 0 hmarked hlive ht.living.nodup_indices
  have hswept : ∀ r, (h.collect roots).2.bare? r =
      if r.index ∈ h.garbageOf roots then none
      else if r ∈ h.handles then ((h.markFrom roots).bare? r).map (HeapEntry.colored .white)
      else (h.markFrom roots).bare? r := hview
  rw [Nat.zero_add] at hcount
  refine ⟨hcount, ⟨htidy.toThreads.withStats _, htidy.2, htidy.3⟩, ?_, ?_⟩
  · intro r hr
    have hr' := hr.contains
    have hgarbage : r.index ∉ h.garbageOf roots := by
      rw [mem_garbageOf_iff ht hwhite roots hr']
      exact fun hnot => hnot hr
    have hmem := (ht.living.mem_handles_iff r).2 hr'
    obtain ⟨e, he⟩ := Option.isSome_iff_exists.1 hr'
    have hmark : e.header.mark = .white := hwhite r _ (by rw [mark?_eq, he]; rfl)
    -- the object was white before, so whitening it restores it
    have hself : HeapEntry.bare (HeapEntry.colored .white e) = HeapEntry.bare e := by
      unfold HeapEntry.colored
      rw [← hmark]
    have hentry := congrArg (Option.map HeapEntry.bare) (hcolors.entries r)
    rw [he, Option.map_some, Option.map_some, hself, Option.map_map] at hentry
    rw [hswept, if_neg hgarbage, if_pos hmem, bare?, bare?, he, Option.map_map]
    exact hentry
  · intro r hr
    rw [hswept]
    by_cases hlive : h.contains r
    · rw [if_pos ((mem_garbageOf_iff ht hwhite roots hlive).2 hr)]
    · have hmem : r ∉ h.handles := fun hmem => hlive ((ht.living.mem_handles_iff r).1 hmem)
      have hnone : (h.markFrom roots).bare? r = none := by
        have hnot : ¬ (h.markFrom roots).contains r := hcolors.contains_eq r ▸ hlive
        simpa [contains_iff_bare?] using hnot
      rw [if_neg hmem, hnone]
      split <;> rfl

/-- Exactly what can be reached is alive after a collection. -/
theorem contains_collect_iff {h : Heap α} {live vacant : List Nat} (ht : Tidy h live vacant)
    (hwhite : AllWhite h) (roots : List ObjectRef) (r : ObjectRef) :
    (h.collect roots).2.contains r ↔ Reached h roots r := by
  obtain ⟨_, _, hreached, hgone⟩ := collect_spec ht hwhite roots
  rw [contains_iff_bare?]
  by_cases hr : Reached h roots r
  · rw [hreached r hr, ← contains_iff_bare?]
    exact iff_of_true hr.contains hr
  · rw [hgone r hr]
    simpa using hr

end VaultKernel.Heap
