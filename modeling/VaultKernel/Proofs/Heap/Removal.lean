import VaultKernel.Proofs.Heap.Threads

/-!
# Removing many objects

`Tidy` adds the counters to the two lists of a heap. The bulk operations remove slots of the living
list one by one while they walk along a copy of it: `Tidy.removeAll` is what any such walk does to
the lists, `Tidy.thinned` what removal by value leaves of the objects, and `sweep_spec` what the
sweep of a collection does to the lists, the objects and the marks.
-/

namespace VaultKernel.Heap

variable {α : Type}

/-- The two lists are in order and the counters agree with them. -/
structure Tidy (h : Heap α) (live vacant : List Nat) : Prop extends Threads h live vacant where
  aliveObjects_eq : h.stats.aliveObjects = live.length
  allocations_eq : h.stats.allocations = h.stats.frees + live.length

/-- The counters of an empty heap agree with its lists. -/
theorem Tidy.empty (limits : HeapLimits) : Tidy (Heap.empty limits : Heap α) [] [] :=
  ⟨Threads.empty limits, rfl, rfl⟩

/-- A change of an entry keeps lists and counters in order if it leaves the links. -/
theorem Tidy.modifyAt {h : Heap α} {live vacant : List Nat} (ht : Tidy h live vacant)
    (k : Nat) (f : HeapEntry α → HeapEntry α)
    (hf : ∀ e, (f e).header.prev = e.header.prev ∧ (f e).header.next = e.header.next) :
    Tidy (h.modifyAt k f) live vacant :=
  ⟨ht.toThreads.modifyAt k f hf, ht.aliveObjects_eq, ht.allocations_eq⟩

/-- An insertion appends to the living and takes from the empty slots, and is counted. -/
theorem Tidy.insert {h h' : Heap α} {live vacant : List Nat} {value : α} {size : UInt64}
    {immortal : Bool} {r : ObjectRef} (ht : Tidy h live vacant)
    (hinsert : h.insert value size immortal = .ok r h') :
    Tidy h' (live ++ [r.index]) vacant.tail := by
  have hthreads := (ht.toThreads.insert hinsert).1
  obtain ⟨taken, htake, _, rfl⟩ := insert_eq_ok hinsert
  have hstats : (taken.link r.index value size immortal).stats = h.stats :=
    (ends_link _ _ _ _ _).2.2.2.trans (head_takeSlot? htake).2.2
  have halive := ht.aliveObjects_eq
  have hallocations := ht.allocations_eq
  refine ⟨hthreads, ?_, ?_⟩
  · simp [countAllocation, hstats, halive]
  · simp [countAllocation, hstats, hallocations]
    omega

/-- Unlinking counts nothing. -/
@[simp]
theorem stats_unlink (h : Heap α) (prev next : Option Nat) :
    (h.unlink prev next).stats = h.stats := by
  cases prev <;> cases next <;> rfl

/-- A removal takes a slot from the living and puts it in front of the empty ones, and is
counted. -/
theorem Tidy.remove {h : Heap α} {live vacant : List Nat} {i : Nat} (ht : Tidy h live vacant)
    (hi : i ∈ live) : Tidy (h.remove i) (live.erase i) (i :: vacant) := by
  obtain ⟨x, hx⟩ := Option.isSome_iff_exists.1 ((ht.living.mem_iff i).1 hi)
  have hlength : (live.erase i).length + 1 = live.length := List.length_erase_add_one hi
  have halive := ht.aliveObjects_eq
  have hallocations := ht.allocations_eq
  refine ⟨ht.toThreads.remove hi, ?_, ?_⟩
  · simp only [Heap.remove, hx, countFree, stats_unlink, vacate]
    omega
  · simp only [Heap.remove, hx, countFree, stats_unlink, vacate]
    omega

/-- Taking one element out first and others later takes all of them out. -/
theorem filter_erase {live : List Nat} (hnodup : live.Nodup) (i : Nat) (rest : List Nat) :
    (live.erase i).filter (· ∉ rest) = live.filter (· ∉ i :: rest) := by
  rw [hnodup.erase_eq_filter, List.filter_filter]
  apply List.filter_congr
  intro j _
  by_cases hji : j = i <;> simp [hji]

/-- Removing living slots one by one takes them out of the living list and puts them, the last one
in front, before the empty slots. -/
theorem Tidy.removeAll {doomed : List Nat} {h : Heap α} {live vacant : List Nat}
    (ht : Tidy h live vacant) (hsub : doomed ⊆ live) (hnodup : doomed.Nodup) :
    Tidy (doomed.foldl Heap.remove h) (live.filter (· ∉ doomed)) (doomed.reverse ++ vacant) := by
  -- each removal takes the next slot out of the living list, wherever the others are
  induction doomed generalizing h live vacant with
  | nil => simpa using ht
  | cons i rest ih =>
      obtain ⟨hfresh, hrest⟩ := List.nodup_cons.1 hnodup
      have hi : i ∈ live := hsub (by simp)
      have hstep : rest ⊆ live.erase i := by
        intro j hj
        have hji : j ≠ i := fun heq => hfresh (heq ▸ hj)
        exact (List.mem_erase_of_ne hji).2 (hsub (by simp [hj]))
      rw [← filter_erase ht.living.nodup]
      simpa using ih (ht.remove hi) hstep hrest

/-- If the living list of a heap is a part of that of another one, and nothing is alive that was not
alive there, then its handles are those of the other one that are still alive. -/
theorem handles_filter {h h' : Heap α} {live : List Nat} {p : Nat → Bool} (hl : Living h live)
    (hl' : Living h' (live.filter p)) (hsub : ∀ r, h'.contains r → h.contains r) :
    h'.handles = h.handles.filter h'.contains := by
  have hsame : ∀ i ∈ live, p i → h'.handleAt i = h.handleAt i := by
    intro i hi hp
    have halive : h'.contains (h'.handleAt i) := by
      rw [contains, entry?_handleAt]
      exact (hl'.mem_iff i).1 (List.mem_filter.2 ⟨hi, hp⟩)
    obtain ⟨e, he⟩ := Option.isSome_iff_exists.1 (hsub _ halive)
    simpa using (handleAt_eq_of_entry he).symm
  have hfilter : live.filter (h'.contains ∘ h.handleAt) = live.filter p := by
    apply List.filter_congr
    intro i hi
    cases hp : p i with
    | true =>
        rw [Function.comp_apply, ← hsame i hi hp, contains, entry?_handleAt]
        exact (hl'.mem_iff i).1 (List.mem_filter.2 ⟨hi, hp⟩)
    | false =>
        -- whatever is alive now is in a slot that is still listed
        rw [Function.comp_apply, ← Bool.not_eq_true]
        intro halive
        obtain ⟨e, he⟩ := Option.isSome_iff_exists.1 halive
        have hentry : h'.entryAt? i = some e := (entry?_eq_some_iff.1 he).2
        have hmem := (hl'.mem_iff i).2 (by rw [hentry]; rfl)
        rw [List.mem_filter, hp] at hmem
        cases hmem.2
  rw [hl'.handles_eq, hl.handles_eq, List.filter_map, hfilter]
  apply List.map_congr_left
  intro i hi
  obtain ⟨hi, hp⟩ := List.mem_filter.1 hi
  exact hsame i hi hp

/-! ## Removal by value -/

/-- Whether the entry in a slot may be removed and has a value that satisfies `p`. -/
def isDoomed (h : Heap α) (p : α → Bool) (i : Nat) : Bool :=
  match h.entryAt? i with
  | some e => !e.header.immortal && p e.value
  | none => false

/-- Removal by value removes the doomed slots of the living list in order. -/
theorem freeWhere_eq {h : Heap α} {live : List Nat} (hl : Living h live) (p : α → Bool) :
    h.freeWhere p =
      ((live.filter (h.isDoomed p)).length, (live.filter (h.isDoomed p)).foldl Heap.remove h) := by
  have hdoomed : ∀ slots : List Nat,
      (((slots.map h.handleAt).filterMap fun r => do
          let e ← h.entry? r
          if e.header.immortal then none else some (r, e.value)).filter
        fun x => p x.2).map (·.1.index) = slots.filter (h.isDoomed p) := by
    intro slots
    induction slots with
    | nil => rfl
    | cons i rest ih =>
        have hi := entry?_handleAt h i
        cases he : h.entryAt? i with
        | none => simpa [isDoomed, hi, he] using ih
        | some e =>
            cases himmortal : e.header.immortal with
            | true => simpa [isDoomed, hi, he, himmortal] using ih
            | false =>
                cases hp : p e.value with
                | true =>
                    simpa [List.filterMap_cons, isDoomed, hi, he, himmortal, hp] using ih
                | false => simpa [isDoomed, hi, he, himmortal, hp] using ih
  -- the walk along the headers is the living list
  rw [← hdoomed live, ← hl.occupied_eq, List.length_map, List.foldl_map]
  rfl

/-! ## Objects -/

/-- An object lives exactly if it has an entry, links apart. -/
theorem contains_iff_bare? {h : Heap α} {r : ObjectRef} : h.contains r ↔ (h.bare? r).isSome := by
  simp [contains, bare?]

/-- A removal is seen through no handle but the handles of its slot. -/
theorem bare?_remove (h : Heap α) (i : Nat) (r : ObjectRef) :
    (h.remove i).bare? r = if i = r.index then none else h.bare? r := by
  cases hx : h.entryAt? i with
  | none =>
      have hsame : h.remove i = h := by simp [Heap.remove, hx]
      rw [hsame]
      split
      · next heq => simp [bare?, entry?_eq, ← heq, hx]
      · rfl
  | some x =>
      have hentry := entryAt?_remove hx r.index
      have hgen := (remove_frame hx r.index).1
      simp only [bare?, entry?_eq, hentry, hgen]
      split
      · simp
      · split
        · rw [Option.map_map]
          rfl
        · rfl

/-- Several removals are seen through the handles of their slots only. -/
theorem bare?_removeAll (doomed : List Nat) (h : Heap α) (r : ObjectRef) :
    (doomed.foldl Heap.remove h).bare? r = if r.index ∈ doomed then none else h.bare? r := by
  induction doomed generalizing h with
  | nil => simp
  | cons i rest ih =>
      rw [List.foldl_cons, ih, bare?_remove]
      by_cases hi : i = r.index
      · simp [hi]
      · simp [hi, Ne.symm hi]

/-- Removal by value leaves what is immortal or not asked for. -/
theorem bare?_freeWhere_iff {h : Heap α} {live : List Nat} (hl : Living h live) {p : α → Bool}
    {r : ObjectRef} {e : HeapEntry α} : (h.freeWhere p).2.bare? r = some e ↔
      h.bare? r = some e ∧ (e.header.immortal = false → p e.value = false) := by
  rw [freeWhere_eq hl, bare?_removeAll]
  -- the slot of a living object is removed exactly if its entry is doomed
  have hdoomed (he : h.bare? r = some e) : r.index ∈ live.filter (h.isDoomed p) ↔
      ¬ (e.header.immortal = false → p e.value = false) := by
    obtain ⟨x, hx, rfl⟩ := Option.map_eq_some_iff.1 he
    have hat := (entry?_eq_some_iff.1 hx).2
    have hmem : r.index ∈ live := (hl.mem_iff _).2 (by simp [hat])
    simp [hmem, isDoomed, hat]
  constructor
  · intro he
    split at he
    · cases he
    · next hspared =>
        rw [hdoomed he, not_not] at hspared
        exact ⟨he, hspared⟩
  · rintro ⟨he, hspared⟩
    rw [if_neg (fun hmem => (hdoomed he).1 hmem hspared), he]

/-- Exactly the objects that satisfy `keep` are left, as they were and in their order. -/
structure Thinned (keep : HeapEntry α → Bool) (h h' : Heap α) : Prop where
  objects : ∀ r, h'.bare? r = (h.bare? r).filter keep
  handles : h'.handles = h.handles.filter fun r => (h.bare? r).any keep

/-- Nothing was removed from a heap yet. -/
theorem Thinned.refl {h : Heap α} {live : List Nat} (hl : Living h live) :
    Thinned (fun _ => true) h h := by
  refine ⟨fun r => ?_, (List.filter_eq_self.2 fun r hr => ?_).symm⟩
  · cases h.bare? r <;> rfl
  · obtain ⟨e, he⟩ :=
      Option.isSome_iff_exists.1 (contains_iff_bare?.1 ((hl.mem_handles_iff r).1 hr))
    rw [he]
    rfl

/-- What is kept may be said in another way. -/
theorem Thinned.congr {keep keep' : HeapEntry α → Bool} {h h' : Heap α} (ht : Thinned keep h h')
    (hkeep : ∀ e, keep e = keep' e) : Thinned keep' h h' :=
  funext hkeep ▸ ht

/-- What is left of what is left satisfies both tests. -/
theorem Thinned.trans {keep keep' : HeapEntry α → Bool} {h₁ h₂ h₃ : Heap α}
    (h₁₂ : Thinned keep h₁ h₂) (h₂₃ : Thinned keep' h₂ h₃) :
    Thinned (fun e => keep e && keep' e) h₁ h₃ := by
  refine ⟨fun r => ?_, ?_⟩
  · rw [h₂₃.objects, h₁₂.objects, Option.filter_filter]
  · rw [h₂₃.handles, h₁₂.handles, List.filter_filter]
    apply List.filter_congr
    intro r _
    rw [h₁₂.objects]
    cases h₁.bare? r with
    | none => rfl
    | some e => cases hk : keep e <;> simp [Option.filter, hk]

/-- Removal by value thins a heap out. -/
theorem Tidy.thinned {h : Heap α} {live vacant : List Nat} (ht : Tidy h live vacant)
    (p : α → Bool) : Thinned (fun e => e.header.immortal || !p e.value) h (h.freeWhere p).2 := by
  have hobjects (r : ObjectRef) : (h.freeWhere p).2.bare? r =
      (h.bare? r).filter fun e => e.header.immortal || !p e.value := by
    ext e
    rw [bare?_freeWhere_iff ht.living, Option.filter_eq_some_iff]
    cases e.header.immortal <;> simp
  have hdoomed : live.filter (h.isDoomed p) ⊆ live := List.filter_sublist.subset
  have hliving : Living (h.freeWhere p).2 (live.filter (· ∉ live.filter (h.isDoomed p))) := by
    rw [freeWhere_eq ht.living]
    exact (ht.removeAll hdoomed (ht.living.nodup.filter _)).living
  have hsub (r : ObjectRef) (hr : (h.freeWhere p).2.contains r) : h.contains r := by
    rw [contains_iff_bare?, hobjects] at hr
    exact contains_iff_bare?.2 (Option.isSome_of_isSome_filter _ _ hr)
  refine ⟨hobjects, ?_⟩
  rw [handles_filter ht.living hliving hsub]
  apply List.filter_congr
  intro r _
  rw [Bool.eq_iff_iff, contains_iff_bare?, hobjects, Option.isSome_filter]

/-- Removal by value leaves a heap alone in which nothing is asked for. -/
theorem freeWhere_of_none {h : Heap α} {p : α → Bool}
    (hnone : ∀ r e, h.bare? r = some e → e.header.immortal = false → p e.value = false) :
    h.freeWhere p = (0, h) := by
  have hdoomed : (h.mortals.filter fun x => p x.2) = [] := by
    rw [List.filter_eq_nil_iff]
    intro x hx
    obtain ⟨r, _, hx⟩ := List.mem_filterMap.1 hx
    obtain ⟨e, he, hmortal⟩ := Option.bind_eq_some_iff.1 hx
    split at hmortal
    · cases hmortal
    · next himmortal =>
        cases hmortal
        have hbare : h.bare? r = some e.bare := by rw [bare?, he]; rfl
        have hp : p e.value = false := hnone r e.bare hbare (by simpa using himmortal)
        simp [hp]
  unfold freeWhere
  simp only [hdoomed]
  rfl

/-- What removing one object did. -/
theorem free_eq_ok {h h' : Heap α} {r : ObjectRef} {value : α} (hfree : h.free r = .ok value h') :
    h.get? r = some value ∧ h' = h.remove r.index := by
  unfold Heap.free at hfree
  split at hfree
  · next hget =>
      cases hfree
      exact ⟨hget, rfl⟩
  · cases hfree

/-- An object that cannot be freed leaves the heap alone. -/
theorem free_eq_error {h h' : Heap α} {r : ObjectRef} {e : HeapError}
    (hfree : h.free r = .error e h') : h' = h := by
  unfold Heap.free at hfree
  split at hfree
  · cases hfree
  · cases hfree
    rfl

/-! ## The sweep -/

/-- Whether a sweep removes an object. -/
def isGarbage (h : Heap α) (r : ObjectRef) : Bool :=
  match h.bare? r with
  | some e => !e.header.immortal && e.header.mark = .white
  | none => false

/-- One step of a sweep removes garbage and whitens everything else. -/
theorem sweepOne_eq {h : Heap α} {r : ObjectRef} (hr : h.contains r) (n : Nat) :
    sweepOne (n, h) r =
      if h.isGarbage r then (n + 1, h.remove r.index) else (n, h.setMark r .white) := by
  obtain ⟨e, he⟩ := Option.isSome_iff_exists.1 hr
  simp only [sweepOne, isGarbage, header?, bare?, he, Option.map_some]
  rfl

/-- What a sweep is going to do depends on nothing but the objects that it is going to visit. -/
theorem garbage_congr {rs : List ObjectRef} {h h' : Heap α}
    (hbare : ∀ q ∈ rs, h'.bare? q = h.bare? q) (hrs : ∀ q ∈ rs, h.contains q) :
    rs.filter h'.isGarbage = rs.filter h.isGarbage ∧ ∀ q ∈ rs, h'.contains q := by
  constructor
  · apply List.filter_congr
    intro q hq
    simp only [isGarbage, hbare q hq]
  · intro q hq
    rw [contains_iff_bare?, hbare q hq, ← contains_iff_bare?]
    exact hrs q hq

/-- A sweep over distinct living objects removes the garbage among them, whitens the others and
leaves the rest of the heap alone. -/
theorem sweep_spec {rs : List ObjectRef} {h : Heap α} {live vacant : List Nat} (n : Nat)
    (ht : Tidy h live vacant) (hrs : ∀ r ∈ rs, h.contains r) (hnodup : (rs.map (·.index)).Nodup) :
    let garbage := (rs.filter h.isGarbage).map (·.index)
    let swept := rs.foldl sweepOne (n, h)
    swept.1 = n + garbage.length ∧
      Tidy swept.2 (live.filter (· ∉ garbage)) (garbage.reverse ++ vacant) ∧
      ∀ q, swept.2.bare? q =
        if q.index ∈ garbage then none
        else if q ∈ rs then (h.bare? q).map (HeapEntry.colored .white) else h.bare? q := by
  induction rs generalizing h live vacant n with
  | nil => simpa using ht
  | cons r rest ih =>
      obtain ⟨hfresh, hrest⟩ := List.nodup_cons.1 hnodup
      have hr : h.contains r := hrs r (by simp)
      have hlater : ∀ q ∈ rest, h.contains q := fun q hq => hrs q (by simp [hq])
      obtain ⟨e, he⟩ := Option.isSome_iff_exists.1 hr
      obtain ⟨hgen, hentry⟩ := entry?_eq_some_iff.1 he
      have hne : ∀ q ∈ rest, r.index ≠ q.index := fun q hq heq =>
        hfresh (List.mem_map.2 ⟨q, hq, heq.symm⟩)
      simp only [List.foldl_cons, sweepOne_eq hr]
      by_cases hg : h.isGarbage r
      · have hbare : ∀ q ∈ rest, (h.remove r.index).bare? q = h.bare? q := by
          intro q hq
          rw [bare?_remove, if_neg (hne q hq)]
        have hi : r.index ∈ live := (ht.living.mem_iff _).2 (by simp [hentry])
        obtain ⟨hgarbage, hcontains⟩ := garbage_congr hbare hlater
        obtain ⟨hcount, htidy, hview⟩ := ih (n + 1) (ht.remove hi) hcontains hrest
        rw [hgarbage] at hcount htidy hview
        rw [filter_erase ht.living.nodup] at htidy
        simp only [hg, if_true, List.filter_cons_of_pos, List.map_cons, List.length_cons]
        refine ⟨by omega, by simpa using htidy, ?_⟩
        intro q
        rw [hview, bare?_remove]
        by_cases hq : r.index = q.index
        · simp [hq]
        · have hqr : q ≠ r := fun heq => hq (by rw [heq])
          have hmem : q.index ∈ r.index :: (rest.filter h.isGarbage).map (·.index) ↔
              q.index ∈ (rest.filter h.isGarbage).map (·.index) := by
            simp [Ne.symm hq]
          simp only [if_neg hq, hmem, List.mem_cons, hqr, false_or]
      · have hwhite : h.setMark r .white = h.modifyAt r.index (HeapEntry.colored .white) :=
          setMark_eq_modifyAt hr _
        have hbare : ∀ q ∈ rest, (h.setMark r .white).bare? q = h.bare? q := by
          intro q hq
          have hqr : q ≠ r := fun heq => hne q hq (by rw [heq])
          rw [bare?_setMark, if_neg hqr]
        obtain ⟨hgarbage, hcontains⟩ := garbage_congr hbare hlater
        have htidy' : Tidy (h.setMark r .white) live vacant := by
          rw [hwhite]
          exact ht.modifyAt _ _ fun _ => ⟨rfl, rfl⟩
        obtain ⟨hcount, htidy, hview⟩ := ih n htidy' hcontains hrest
        rw [hgarbage] at hcount htidy hview
        simp only [hg, if_false, List.filter_cons_of_neg, Bool.false_eq_true, not_false_eq_true]
        refine ⟨hcount, htidy, ?_⟩
        intro q
        rw [hview, bare?_setMark]
        by_cases hqr : q = r
        · subst hqr
          have hq : q ∉ rest := fun hq => hne q hq rfl
          simp [hq]
        · simp [hqr]

end VaultKernel.Heap
