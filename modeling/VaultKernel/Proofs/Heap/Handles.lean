import VaultKernel.Proofs.Handle.Log
import VaultKernel.Proofs.Heap.History

/-!
# Handles of a heap

A heap is used in any way and a log kept of the handles that it returns and removes. As long as no
slot is vacated 2 ^ 32 times, the log tells what every handle leads to (`Logged.tracked`). Marking
and whitening change colours only; what is left of a collection is one removal after another.
-/

namespace VaultKernel.Heap

open HandleLog

variable {α : Type}

/-- The log tells the generations and the values of the heap. -/
def TrackedBy (h : Heap α) (log : HandleLog α) : Prop := log.Tracks h.generation? h.get?

/-! ## Single steps -/

/-- An object has a value exactly if it lives. -/
theorem isSome_get? (h : Heap α) (r : ObjectRef) : (h.get? r).isSome = h.contains r := by
  rw [get?, contains, Option.isSome_map]

/-- No handle of an empty slot denotes anything. -/
theorem get?_eq_none_of_entryAt? {h : Heap α} {r : ObjectRef} (hr : h.entryAt? r.index = none) :
    h.get? r = none := by
  rw [get?, entry?_eq, hr, ite_self]
  rfl

/-- A slot that is taken keeps its generation; a new one begins with the first. -/
theorem generation?_takeSlot?_self {h taken : Heap α} {index : Nat}
    (htake : h.takeSlot? = some (index, taken)) :
    (taken.generation? index).getD 0 = (h.generation? index).getD 0 := by
  unfold takeSlot? at htake
  split at htake
  · cases htake
    simp only [generation?, Array.getElem?_modify, if_true]
    cases h.slots[index]? <;> rfl
  · split at htake
    · cases htake
      simp [generation?]
    · cases htake

/-- A log stays right when an insertion is entered under its handle. -/
theorem TrackedBy.insert {h h' : Heap α} {log : HandleLog α} {live vacant : List Nat} {value : α}
    {size : UInt64} {immortal : Bool} {r : ObjectRef} (ht : h.TrackedBy log)
    (hthreads : Threads h live vacant) (hinsert : h.insert value size immortal = .ok r h') :
    h'.TrackedBy (.stored r value :: log) := by
  have hbare := bare?_insert hthreads hinsert
  obtain ⟨taken, htake, hgeneration, rfl⟩ := insert_eq_ok hinsert
  obtain ⟨_, _, _, hsize, hnone, _, _⟩ := hthreads.takeSlot? htake
  have hslot : taken.generation? r.index = some r.generation := by
    rw [hgeneration, generation?, Array.getElem?_eq_getElem hsize]
    rfl
  refine ht.store (fun q hq => get?_eq_none_of_entryAt? (by rw [hq, hnone])) ?_ ?_ ?_
  · rw [← generation?_takeSlot?_self htake, ← hgeneration]
  · intro i
    show (taken.link r.index value size immortal).generation? i = _
    rw [generation?_link]
    by_cases hi : i = r.index
    · rw [if_pos hi, hi, hslot]
    · rw [if_neg hi, generation?_takeSlot? htake hi]
  · intro q
    rw [get?_eq_map_bare?, hbare, get?_eq_map_bare?]
    split <;> rfl

/-- A log stays right when a removal is entered, as long as its slot does not run over. -/
theorem TrackedBy.remove {h : Heap α} {log : HandleLog α} {r : ObjectRef} (ht : h.TrackedBy log)
    (hr : h.contains r) (hbound : Bounded (.removed r :: log)) :
    (h.remove r.index).TrackedBy (.removed r :: log) := by
  obtain ⟨e, he⟩ := Option.isSome_iff_exists.1 hr
  have hx := (entry?_eq_some_iff.1 he).2
  refine Tracks.remove ht (by rw [isSome_get?, hr]) hbound (fun i => ?_) fun q => ?_
  · rw [(remove_frame hx i).1]
    simp only [eq_comm]
  · rw [get?_eq_map_bare?, bare?_remove, get?_eq_map_bare?]
    simp only [eq_comm]
    split <;> rfl

/-- Rewriting a value turns no generation. -/
theorem generation?_modify (h : Heap α) (r : ObjectRef) (f : α → α) (i : Nat) :
    (h.modify r f).generation? i = h.generation? i := by
  unfold Heap.modify
  split
  · exact generation?_modifyAt _ _ _ _
  · rfl

/-- A log stays right when a value is rewritten and the log says how. -/
theorem TrackedBy.modify {h : Heap α} {log : HandleLog α} (ht : h.TrackedBy log) (r : ObjectRef)
    (f : α → α) : (h.modify r f).TrackedBy (.changed r f :: log) :=
  Tracks.change ht (generation?_modify h r f) fun q => get?_modify h r q f

/-- A log knows nothing of colours. -/
theorem TrackedBy.recolored {h h' : Heap α} {log : HandleLog α} (ht : h.TrackedBy log)
    (hc : Recolored h h') : h'.TrackedBy log :=
  Tracks.congr ht hc.generations hc.get?_eq

/-! ## Many removals -/

/-- A log stays right through a row of removals that are all entered. -/
theorem TrackedBy.removeAll {rs : List ObjectRef} {h : Heap α} {log : HandleLog α}
    (ht : h.TrackedBy log) (hrs : ∀ r ∈ rs, h.contains r) (hnodup : (rs.map (·.index)).Nodup)
    (hbound : Bounded (removeAll rs log)) :
    (rs.foldl (fun h r => h.remove r.index) h).TrackedBy (HandleLog.removeAll rs log) := by
  induction rs generalizing h log with
  | nil => exact ht
  | cons r rest ih =>
      obtain ⟨hfresh, hrest⟩ := List.nodup_cons.1 hnodup
      have hr := hrs r (by simp)
      rw [removeAll_cons] at hbound ⊢
      refine ih (ht.remove hr hbound.of_append) (fun q hq => ?_) hrest hbound
      have hne : r.index ≠ q.index := fun heq => hfresh (List.mem_map.2 ⟨q, hq, heq.symm⟩)
      rw [contains_iff_bare?, bare?_remove, if_neg hne, ← contains_iff_bare?]
      exact hrs q (by simp [hq])

/-- A sweep removes the garbage on its way and leaves all other values alone. -/
theorem TrackedBy.sweep {rs : List ObjectRef} {h : Heap α} {log : HandleLog α} (n : Nat)
    (ht : h.TrackedBy log) (hrs : ∀ r ∈ rs, h.contains r) (hnodup : (rs.map (·.index)).Nodup)
    (hbound : Bounded (HandleLog.removeAll (rs.filter h.isGarbage) log)) :
    (rs.foldl sweepOne (n, h)).2.TrackedBy (HandleLog.removeAll (rs.filter h.isGarbage) log) := by
  induction rs generalizing h log n with
  | nil => exact ht
  | cons r rest ih =>
      obtain ⟨hfresh, hrest⟩ := List.nodup_cons.1 hnodup
      have hr := hrs r (by simp)
      have hlater : ∀ q ∈ rest, h.contains q := fun q hq => hrs q (by simp [hq])
      have hne : ∀ q ∈ rest, r.index ≠ q.index := fun q hq heq =>
        hfresh (List.mem_map.2 ⟨q, hq, heq.symm⟩)
      rw [List.foldl_cons, sweepOne_eq hr]
      by_cases hg : h.isGarbage r
      · rw [if_pos hg]
        rw [List.filter_cons_of_pos hg, removeAll_cons] at hbound ⊢
        have hbare : ∀ q ∈ rest, (h.remove r.index).bare? q = h.bare? q := by
          intro q hq
          rw [bare?_remove, if_neg (hne q hq)]
        obtain ⟨hgarbage, hcontains⟩ := garbage_congr hbare hlater
        rw [← hgarbage] at hbound ⊢
        exact ih (n + 1) (ht.remove hr hbound.of_append) hcontains hrest hbound
      · rw [if_neg hg]
        rw [List.filter_cons_of_neg hg] at hbound ⊢
        have hbare : ∀ q ∈ rest, (h.setMark r .white).bare? q = h.bare? q := by
          intro q hq
          have hqr : q ≠ r := fun heq => hne q hq (by rw [heq])
          rw [bare?_setMark, if_neg hqr]
        obtain ⟨hgarbage, hcontains⟩ := garbage_congr hbare hlater
        rw [← hgarbage] at hbound ⊢
        exact ih n (ht.recolored (.setMark h r .white)) hcontains hrest hbound

/-! ## Runs -/

/-- The living objects of a heap that another one has lost, in allocation order. -/
def lost (h h' : Heap α) : List ObjectRef := h.handles.filter fun r => !h'.contains r

/-- The objects that a removal by value removes, in allocation order. -/
def matching (h : Heap α) (p : α → Bool) : List ObjectRef :=
  (h.mortals.filter fun x => p x.2).map (·.1)

/-- A heap with the log of its handles since it was empty. -/
inductive Logged [Traceable α] (limits : HeapLimits) : Heap α → HandleLog α → Prop where
  | start : Logged limits (.empty limits) []
  | stored {h h' log} (value : α) (size : UInt64) (immortal : Bool) {r : ObjectRef} :
      Logged limits h log → h.insert value size immortal = .ok r h' →
      Logged limits h' (.stored r value :: log)
  | refused {h h' log} (value : α) (size : UInt64) (immortal : Bool) {e : HeapError} :
      Logged limits h log → h.insert value size immortal = .error e h' → Logged limits h' log
  | freed {h h' log} {value : α} (r : ObjectRef) :
      Logged limits h log → h.free r = .ok value h' → Logged limits h' (.removed r :: log)
  | stale {h h' log} (r : ObjectRef) {e : HeapError} :
      Logged limits h log → h.free r = .error e h' → Logged limits h' log
  | freeWhere {h log} (p : α → Bool) : Logged limits h log →
      Logged limits (h.freeWhere p).2 (removeAll (h.matching p) log)
  | freeMortals {h log} : Logged limits h log →
      Logged limits h.freeMortals.2 (removeAll (h.matching fun _ => true) log)
  | collect {h log} (roots : List ObjectRef) : Logged limits h log →
      Logged limits (h.collect roots).2 (removeAll (lost h (h.collect roots).2) log)
  | changed {h log} (r : ObjectRef) (f : α → α) : Logged limits h log →
      Logged limits (h.modify r f) (.changed r f :: log)

/-- A run is a history of the slots as well. -/
theorem Logged.history [Traceable α] {limits : HeapLimits} {h : Heap α} {log : HandleLog α}
    (hlog : Logged limits h log) : ∃ events, History limits h events := by
  induction hlog with
  | start => exact ⟨_, .start⟩
  | stored value size immortal _ hinsert ih =>
      exact ⟨_, ih.choose_spec.allocated value size immortal hinsert⟩
  | refused value size immortal _ hinsert ih =>
      exact ⟨_, ih.choose_spec.refused value size immortal hinsert⟩
  | freed r _ hfree ih => exact ⟨_, ih.choose_spec.freed r hfree⟩
  | stale r _ hfree ih => exact ⟨_, ih.choose_spec.stale r hfree⟩
  | freeWhere p _ ih => exact ⟨_, ih.choose_spec.freeWhere p⟩
  | freeMortals _ ih => exact ⟨_, ih.choose_spec.freeMortals⟩
  | collect roots _ ih => exact ⟨_, ih.choose_spec.collect roots⟩
  | changed r f _ ih => exact ⟨_, ih.choose_spec.modify r f⟩

/-- The objects that a test is for are some of the living, in their order. -/
theorem matching_sublist (h : Heap α) (p : α → Bool) : (h.matching p).Sublist h.handles := by
  have hmortals : ∀ rs : List ObjectRef, ((rs.filterMap fun r => do
      let e ← h.entry? r
      if e.header.immortal then none else some (r, e.value)).map (·.1)).Sublist rs := by
    intro rs
    induction rs with
    | nil => exact List.Sublist.refl _
    | cons r rest ih =>
        rw [List.filterMap_cons]
        split
        · exact ih.cons r
        · next x hx =>
            obtain ⟨e, _, hsome⟩ := Option.bind_eq_some_iff.1 hx
            split at hsome
            · cases hsome
            · cases hsome
              exact ih.cons_cons r
  exact (List.filter_sublist.map _).trans (hmortals h.handles)

/-- A log stays right when objects are removed by value, in allocation order. -/
theorem TrackedBy.freeWhere {h : Heap α} {log : HandleLog α} {live vacant : List Nat}
    (ht : h.TrackedBy log) (htidy : Tidy h live vacant) (p : α → Bool)
    (hbound : Bounded (HandleLog.removeAll (h.matching p) log)) :
    (h.freeWhere p).2.TrackedBy (HandleLog.removeAll (h.matching p) log) := by
  have hsub := h.matching_sublist p
  have hall := ht.removeAll (fun r hr => (htidy.living.mem_handles_iff r).1 (hsub.subset hr))
    (htidy.living.nodup_indices.sublist (hsub.map _)) hbound
  rw [matching, List.foldl_map] at hall
  exact hall

/-- A log stays right when a collection removes what is lost, in allocation order. -/
theorem TrackedBy.collect [Traceable α] {h : Heap α} {log : HandleLog α} {live vacant : List Nat}
    (ht : h.TrackedBy log) (htidy : Tidy h live vacant) (hwhite : AllWhite h)
    (roots : List ObjectRef)
    (hbound : Bounded (HandleLog.removeAll (lost h (h.collect roots).2) log)) :
    (h.collect roots).2.TrackedBy (HandleLog.removeAll (lost h (h.collect roots).2) log) := by
  have hcolors := (markFrom_white_iff htidy hwhite roots).1
  have hlost : lost h (h.collect roots).2 = h.handles.filter (h.markFrom roots).isGarbage := by
    apply List.filter_congr
    intro r hr
    have hlive := (htidy.living.mem_handles_iff r).1 hr
    rw [Bool.eq_iff_iff, isGarbage_markFrom htidy hwhite roots hlive,
      ← contains_collect_iff htidy hwhite roots r]
    simp
  rw [hlost] at hbound ⊢
  refine TrackedBy.sweep 0 (ht.recolored hcolors) (fun r hr => ?_) htidy.living.nodup_indices hbound
  rw [hcolors.contains_eq]
  exact (htidy.living.mem_handles_iff r).1 hr

/-- The log of a run tells what every handle leads to. -/
theorem Logged.tracked [Traceable α] {limits : HeapLimits} {h : Heap α} {log : HandleLog α}
    (hlog : Logged limits h log) (hbound : log.Bounded) : h.TrackedBy log := by
  induction hlog with
  | start =>
      refine Tracks.empty (fun i => ?_) fun r => ?_
      · simp [generation?, Heap.empty]
      · simp [get?, entry?_eq, generation?, Heap.empty]
  | stored value size immortal hlog hinsert ih =>
      obtain ⟨live, vacant, hk⟩ := hlog.history.choose_spec.kept
      exact (ih hbound.tail).insert hk.tidy.toThreads hinsert
  | refused _ _ _ _ hinsert ih => exact insert_eq_error hinsert ▸ ih hbound
  | freed r _ hfree ih =>
      obtain ⟨hget, rfl⟩ := free_eq_ok hfree
      refine (ih hbound.tail).remove ?_ hbound
      rw [← isSome_get?, hget]
      rfl
  | stale _ _ hfree ih => exact free_eq_error hfree ▸ ih hbound
  | freeWhere p hlog ih =>
      obtain ⟨live, vacant, hk⟩ := hlog.history.choose_spec.kept
      exact (ih hbound.of_append).freeWhere hk.tidy p hbound
  | freeMortals hlog ih =>
      obtain ⟨live, vacant, hk⟩ := hlog.history.choose_spec.kept
      exact (ih hbound.of_append).freeWhere hk.tidy _ hbound
  | collect roots hlog ih =>
      obtain ⟨live, vacant, hk⟩ := hlog.history.choose_spec.kept
      exact (ih hbound.of_append).collect hk.tidy hk.white roots hbound
  | changed r f _ ih => exact (ih hbound.tail).modify r f

end VaultKernel.Heap
