import VaultKernel.Proofs.Arena.Overrun

/-!
# The records of an arena

An arena keeps four records of what is stored in it: the slots, the stack of empty slots, the lists
of the owners and the number of entries. Read `bookkeeping_exact`: after every run the records agree
with each other and with `survivors`, which reads off the log what was stored and not removed, in
the order in which it was stored, exactly if there are at most 2 ^ 32 slots. `bookkeeping_overrun`
shows a run with one slot more. Both kinds of removal empty a list of slots, so that one lemma,
`Kept.vacate`, is about both.
-/

namespace VaultKernel

namespace HandleLog

variable {α : Type}

/-- What was stored and not removed, with all changes, in the order in which it was stored. -/
def survivors : HandleLog α → List (Handle × α)
  | [] => []
  | .stored h value :: log => survivors log ++ [(h, value)]
  | .changed h f :: log => (survivors log).map fun e => if e.1 = h then (e.1, f e.2) else e
  | .removed h :: log => (survivors log).filter (·.1 ≠ h)

/-- The entries that survive a row of removals are those none of them names. -/
theorem survivors_removeAll (hs : List Handle) (log : HandleLog α) :
    survivors (removeAll hs log) = (survivors log).filter (·.1 ∉ hs) := by
  induction hs generalizing log with
  | nil => simp [removeAll]
  | cons h hs ih =>
      rw [removeAll_cons, ih, survivors, List.filter_filter]
      apply List.filter_congr
      intro e _
      simp [Bool.and_comm]

end HandleLog

namespace Arena

open HandleLog

variable {α : Type} {a : Arena α} {log : HandleLog (Nat × α)}

/-! ## Releasing slots -/

/-- The values of several occupied slots are returned in order, and the entries are counted off. -/
theorem releaseAll_values {is : List Nat} {a : Arena α} (hnodup : is.Nodup)
    (hoccupied : ∀ i ∈ is, (a.entryAt? i).isSome) :
    (a.releaseAll is).1 = is.filterMap (fun i => (a.entryAt? i).map (·.2)) ∧
      (a.releaseAll is).2.size = a.size - is.length := by
  induction is generalizing a with
  | nil => exact ⟨rfl, rfl⟩
  | cons i rest ih =>
      obtain ⟨hfresh, hrest⟩ := List.nodup_cons.1 hnodup
      obtain ⟨e, he⟩ := Option.isSome_iff_exists.1 (hoccupied i (by simp))
      have hslot : a.slots[i]?.bind (·.entry) = some e := he
      have hvalue : (a.release i).1 = some e.2 := by
        rw [release, hslot]
      have hsize : (a.release i).2.size = a.size - 1 := by
        rw [release, hslot]
      -- the other slots are as before, because each is released once
      have hothers : ∀ j ∈ rest, (a.release i).2.entryAt? j = a.entryAt? j := by
        intro j hj
        rw [(release_spec he).1, if_neg]
        rintro rfl
        exact hfresh hj
      obtain ⟨hvalues, hcount⟩ := ih (a := (a.release i).2) hrest fun j hj => by
        rw [hothers j hj]
        exact hoccupied j (by simp [hj])
      constructor
      · show (a.release i).1.toList ++ ((a.release i).2.releaseAll rest).1 = _
        rw [hvalue, hvalues, List.filterMap_cons, he]
        refine congrArg (e.2 :: ·) (List.filterMap_congr fun j hj => ?_)
        rw [hothers j hj]
      · show ((a.release i).2.releaseAll rest).2.size = _
        rw [hcount, hsize, List.length_cons]
        omega

/-! ## The entries and the log -/

/-- The entries are what the log says, each in a slot of its own, and those of an owner come in the
order of the log. -/
structure Kept (a : Arena α) (log : HandleLog (Nat × α)) : Prop where
  sound : a.Sound
  entries : ∀ h e, a.entry? h = some e ↔ (h, e) ∈ log.survivors
  distinct : (log.survivors.map (·.1.index)).Nodup
  slots_eq : ∀ owner, a.slotsOf owner =
    (log.survivors.filter (·.2.1 = owner)).map (·.1.index)
  size_eq : a.size = log.survivors.length

/-- The books of an empty arena are in order. -/
theorem Kept.empty : Kept ({} : Arena α) [] :=
  ⟨.empty, fun h e => by simp [entry?_eq, generation?, survivors], List.nodup_nil,
    fun owner => by simp [slotsOf, survivors], rfl⟩

/-- An occupied slot is that of a living entry. -/
theorem Kept.exists_of_entryAt? (hk : Kept a log) {i : Nat} {e : Nat × α}
    (he : a.entryAt? i = some e) : (a.handleAt i, e) ∈ log.survivors :=
  (hk.entries _ e).1 (entry?_handleAt he)

/-- An entry that survives in the log is in the slot of its handle. -/
theorem Kept.entryAt?_of_mem (hk : Kept a log) {x : Handle × Nat × α} (hx : x ∈ log.survivors) :
    a.entryAt? x.1.index = some x.2 :=
  (entry?_eq_some_iff.1 ((hk.entries x.1 x.2).2 hx)).2

/-- An allocation keeps the books, as long as there is a number for the slot it takes. -/
theorem Kept.allocate (hk : Kept a log) (hroom : a.HasRoom) (owner : Nat) (value : α) :
    Kept (a.allocate owner value).2
      (.stored (a.allocate owner value).1 (owner, value) :: log) := by
  have hall := allocate_spec hk.sound hroom owner value
  refine ⟨hk.sound.allocate hroom owner value, fun h e => ?_, ?_, fun o => ?_, ?_⟩
  · rw [survivors, List.mem_append, List.mem_singleton]
    constructor
    · intro he
      rcases hall.entry?_cases he with ⟨rfl, rfl⟩ | hold
      · exact Or.inr rfl
      · exact Or.inl ((hk.entries h e).1 hold)
    · rintro (hold | hnew)
      · exact hall.extends.entry? ((hk.entries h e).2 hold)
      · cases hnew
        exact hall.entry?_self
  · rw [survivors, List.map_append]
    refine List.nodup_append'.2 ⟨hk.distinct, List.nodup_singleton _, ?_⟩
    -- the new slot was empty
    intro i hi hnew
    obtain ⟨x, hx, rfl⟩ := List.mem_map.1 hi
    have hvacant := hall.vacant
    rw [← show x.1.index = (a.allocate owner value).1.index from List.mem_singleton.1 hnew,
      ownerAt?, hk.entryAt?_of_mem hx] at hvacant
    cases hvacant
  · rw [slotsOf_allocate, survivors, List.filter_append, List.map_append, ← hk.slots_eq]
    by_cases ho : owner = o <;> simp [ho]
  · have hsize : (a.allocate owner value).2.size = a.size + 1 := by
      unfold Arena.allocate takeSlot
      cases a.free <;> rfl
    rw [hsize, hk.size_eq, survivors, List.length_append, List.length_singleton]

/-- Rewriting a value keeps the books. -/
theorem Kept.modify (hk : Kept a log) (h : Handle) (f : α → α) :
    Kept (a.modify h f) (.changed h (fun e => (e.1, f e.2)) :: log) := by
  have hrest : (a.modify h f).slotsOf = a.slotsOf ∧ (a.modify h f).size = a.size := by
    unfold Arena.modify
    split <;> exact ⟨rfl, rfl⟩
  -- a change moves no entry to another slot or owner
  have hindex : ∀ x : Handle × Nat × α,
      (if x.1 = h then (x.1, x.2.1, f x.2.2) else x).1.index = x.1.index := by
    intro x
    split <;> rfl
  have howner : ∀ x : Handle × Nat × α,
      (if x.1 = h then (x.1, x.2.1, f x.2.2) else x).2.1 = x.2.1 := by
    intro x
    split <;> rfl
  refine ⟨hk.sound.modify h f, fun q e => ?_, ?_, fun o => ?_, ?_⟩
  · rw [entry?_modify, survivors, List.mem_map]
    constructor
    · intro he
      split at he
      · next hq =>
          obtain ⟨e', he', rfl⟩ := Option.map_eq_some_iff.1 he
          exact ⟨(q, e'), (hk.entries q e').1 he', if_pos hq⟩
      · next hq => exact ⟨(q, e), (hk.entries q e).1 he, if_neg hq⟩
    · rintro ⟨⟨q', e'⟩, hmem, heq⟩
      have he' := (hk.entries q' e').2 hmem
      split at heq
      · next hq =>
          cases heq
          rw [if_pos hq, he']
          rfl
      · next hq =>
          cases heq
          rw [if_neg hq, he']
  · rw [survivors, List.map_map]
    exact (List.map_congr_left fun x _ => hindex x) ▸ hk.distinct
  · rw [hrest.1, hk.slots_eq, survivors, List.filter_map, List.map_map]
    simp only [Function.comp_def, hindex, howner]
  · rw [hrest.2, hk.size_eq, survivors, List.length_map]

/-- Several slots are emptied and leave the lists of their owners. -/
theorem Kept.vacate (hk : Kept a log) {is : List Nat} (hnodup : is.Nodup)
    (hoccupied : ∀ i ∈ is, (a.entryAt? i).isSome) {a' : Arena α} (hsound : a'.Sound)
    (hentry : ∀ h, a'.entry? h = if h.index ∈ is then none else a.entry? h)
    (hslots : ∀ o, a'.slotsOf o = (a.slotsOf o).filter (· ∉ is))
    (hsize : a'.size = a.size - is.length) : Kept a' (removeAll (is.map a.handleAt) log) := by
  have hsurvivors : survivors (removeAll (is.map a.handleAt) log) =
      (survivors log).filter (·.1.index ∉ is) := by
    rw [survivors_removeAll]
    apply List.filter_congr
    intro x hx
    have hhandle := handleAt_eq_of_entry ((hk.entries x.1 x.2).2 hx)
    have hmem : x.1 ∈ is.map a.handleAt ↔ x.1.index ∈ is := by
      refine ⟨fun h => ?_, fun h => List.mem_map.2 ⟨_, h, hhandle⟩⟩
      obtain ⟨i, hi, heq⟩ := List.mem_map.1 h
      rwa [← heq]
    simp only [hmem]
  refine ⟨hsound, fun h e => ?_, ?_, fun o => ?_, ?_⟩
  · rw [hentry, hsurvivors, List.mem_filter]
    by_cases hi : h.index ∈ is
    · simp [hi]
    · simp [hi, hk.entries]
  · rw [hsurvivors]
    exact hk.distinct.sublist (List.filter_sublist.map _)
  · rw [hslots, hk.slots_eq, hsurvivors, List.filter_map, List.filter_filter, List.filter_filter]
    congr 1
    apply List.filter_congr
    intro x _
    simp [Bool.and_comm]
  · -- as many entries go as slots are emptied
    have hgone : ((survivors log).filter (·.1.index ∈ is)).length = is.length := by
      rw [← List.length_map (f := fun x : Handle × Nat × α => x.1.index)]
      refine (List.Perm.length_eq ((List.perm_ext_iff_of_nodup
        (hk.distinct.sublist (List.filter_sublist.map _)) hnodup).2 fun i => ?_))
      rw [List.mem_map]
      constructor
      · rintro ⟨x, hx, rfl⟩
        simpa using (List.mem_filter.1 hx).2
      · intro hi
        obtain ⟨e, he⟩ := Option.isSome_iff_exists.1 (hoccupied i hi)
        have hmem := hk.exists_of_entryAt? he
        exact ⟨_, List.mem_filter.2 ⟨hmem, decide_eq_true hi⟩, rfl⟩
    have hsplit := List.length_eq_length_filter_add (l := survivors log)
      fun x => decide (x.1.index ∈ is)
    have hstay : (survivors log).filter (fun x => !decide (x.1.index ∈ is)) =
        (survivors log).filter (·.1.index ∉ is) :=
      List.filter_congr fun x _ => by simp
    rw [hsize, hk.size_eq, hsurvivors, ← hstay]
    omega

/-- The entries in the slots of an owner. -/
theorem isSome_of_mem_slotsOf (hs : a.Sound) {owner i : Nat} (hi : i ∈ a.slotsOf owner) :
    (a.entryAt? i).isSome := by
  obtain ⟨e, he, _⟩ := Option.map_eq_some_iff.1 ((hs.owned_iff owner i).1 hi)
  rw [he]
  rfl

/-- Removing an owner keeps the books. -/
theorem Kept.removeOwner (hk : Kept a log) (owner : Nat) :
    Kept (a.removeOwner owner).2 (removeAll (a.handlesOf owner) log) := by
  have hs := hk.sound
  have hoccupied : ∀ i ∈ a.slotsOf owner, (a.entryAt? i).isSome := fun i => isSome_of_mem_slotsOf hs
  obtain ⟨hd, hsound⟩ := removeOwner_spec hs owner
  refine hk.vacate (hs.owned_nodup owner) hoccupied hsound (fun h => ?_) (fun o => ?_) ?_
  · rw [Arena.entry?_eq, Arena.entry?_eq, hd.generations, hd.entries]
    simp only [hs.owned_iff]
    split
    · rw [ite_self]
    · rfl
  · rw [slotsOf_removeOwner]
    by_cases ho : owner = o
    · simp [ho]
    · -- no slot has two owners
      rw [if_neg ho, List.filter_eq_self.2]
      intro i hi
      rw [hs.owned_iff] at hi
      simp [hs.owned_iff, hi, Ne.symm ho]
  · exact (releaseAll_values (a := { a with owners := a.owners.erase owner }) (hs.owned_nodup owner)
      hoccupied).2

/-- Removing what a handle denotes keeps the books. -/
theorem Kept.remove (hk : Kept a log) {h : Handle} (hh : a.contains h) :
    Kept (a.remove h).2 (.removed h :: log) := by
  have hs := hk.sound
  obtain ⟨⟨owner, value⟩, he⟩ := contains_iff.1 hh
  have hat := (entry?_eq_some_iff.1 he).2
  have howner : a.ownerOf? h = some owner := by
    rw [ownerOf?, he]
    rfl
  obtain ⟨hv, hsound⟩ := remove_spec hs he
  have hkept := hk.vacate (List.nodup_singleton h.index) (by simp [hat]) hsound
    (fun q => ?_) (fun o => ?_) ?_
  · rwa [List.map_singleton, handleAt_eq_of_entry he] at hkept
  · rw [hv.entry?_eq]
    simp
  · rw [slotsOf_remove howner]
    by_cases ho : owner = o
    · rw [if_pos ho, ← ho, slotsOf, List.filter_reverse]
      congr 1
      apply List.filter_congr
      intro i _
      by_cases hi : i = h.index <;> simp [hi]
    · rw [if_neg ho, List.filter_eq_self.2]
      intro i hi
      have hi' : a.ownerAt? i = some o := (hs.owned_iff o i).1 hi
      have hne : i ≠ h.index := by
        rintro rfl
        rw [ownerAt?, hat] at hi'
        exact ho (Option.some.inj hi')
      simp [hne]
  · rw [Arena.remove, howner]
    refine (releaseAll_values (List.nodup_singleton h.index) fun i hi => ?_).2
    rw [List.mem_singleton.1 hi]
    exact Option.isSome_of_eq_some hat

/-- The log of a run says what the arena holds, if it has no more slots than there are words of 32
bits. -/
theorem Logged.kept (hlog : Logged a log) (hsize : a.slots.size ≤ 4294967296) : Kept a log := by
  induction hlog with
  | start => exact .empty
  | stored owner value _ ih =>
      have hbefore := ih (Nat.le_trans (size_slots_le_allocate _ owner value) hsize)
      exact hbefore.allocate (.of_allocate hsize) owner value
  | changed h f _ ih => exact (ih (size_slots_modify _ h f ▸ hsize)).modify h f
  | freed h _ hh ih => exact (ih (size_slots_remove _ h ▸ hsize)).remove hh
  | stale h _ hh ih =>
      rw [remove_of_not_contains hh] at hsize ⊢
      exact ih hsize
  | removeOwner owner _ ih => exact (ih (size_slots_removeOwner _ owner ▸ hsize)).removeOwner owner

/-! ## The number of entries -/

/-- There are no more occupied slots than the arena counts entries. -/
def Counted (a : Arena α) : Prop :=
  ∀ is : List Nat, is.Nodup → (∀ i ∈ is, (a.entryAt? i).isSome) → is.length ≤ a.size

/-- The counter of live values goes up with every allocation. -/
theorem Counted.allocate (hc : a.Counted) (owner : Nat) (value : α) :
    (a.allocate owner value).2.Counted := by
  intro is hnodup hoccupied
  have hsize : (a.allocate owner value).2.size = a.size + 1 := by
    unfold Arena.allocate takeSlot
    cases a.free <;> rfl
  have hothers := hc (is.erase (a.allocate owner value).1.index) (hnodup.erase _) fun i hi => by
    obtain ⟨hne, hmem⟩ := hnodup.mem_erase_iff.1 hi
    obtain ⟨e, he⟩ := Option.isSome_iff_exists.1 (hoccupied i hmem)
    exact Option.isSome_of_eq_some ((entryAt?_allocate_cases he).resolve_left fun h => hne h.1)
  have hle := List.le_length_erase (l := is) (a := (a.allocate owner value).1.index)
  omega

/-- Rewriting a value keeps the count. -/
theorem Counted.modify (hc : a.Counted) (h : Handle) (f : α → α) : (a.modify h f).Counted := by
  intro is hnodup hoccupied
  have hsize : (a.modify h f).size = a.size := by
    unfold Arena.modify
    split <;> rfl
  rw [hsize]
  refine hc is hnodup fun i hi => ?_
  have hsome : ((a.modify h f).ownerAt? i).isSome := Option.isSome_map.trans (hoccupied i hi)
  rw [ownerAt?_modify] at hsome
  exact Option.isSome_map.symm.trans hsome

/-- The counter goes down when an occupied slot is released and stays when a vacant one is. -/
theorem Counted.release (hc : a.Counted) (i : Nat) : (a.release i).2.Counted := by
  cases he : a.entryAt? i with
  | none =>
      rw [release_of_vacant he]
      exact hc
  | some e =>
      intro is hnodup hoccupied
      have hsize : (a.release i).2.size = a.size - 1 := by
        rw [Arena.release, show a.slots[i]?.bind (·.entry) = some e from he]
      have hentry := (release_spec he).1
      -- the slot that is emptied is one more
      have hfresh : i ∉ is := fun hi => by
        have hsome := hoccupied i hi
        rw [hentry, if_pos rfl] at hsome
        cases hsome
      have hmore := hc (i :: is) (List.nodup_cons.2 ⟨hfresh, hnodup⟩) fun j hj => by
        rcases List.mem_cons.1 hj with rfl | hj
        · exact Option.isSome_of_eq_some he
        · have hji : j ≠ i := fun heq => hfresh (heq ▸ hj)
          have hsome := hoccupied j hj
          rwa [hentry, if_neg hji] at hsome
      rw [List.length_cons] at hmore
      omega

/-- There is nothing to count in an empty arena. -/
theorem Counted.empty : Counted ({} : Arena α) := by
  intro is _ hoccupied
  cases is with
  | nil => exact Nat.le_refl _
  | cons i rest => exact absurd (hoccupied i List.mem_cons_self) (by simp [entryAt?])

/-- Living entries are counted in every run, however many slots there are. -/
theorem Logged.counted (hlog : Logged a log) : a.Counted :=
  hlog.of_steps .empty (fun _ owner value hc => hc.allocate owner value)
    (fun _ h f hc => hc.modify h f) (fun _ i hc => hc.release i) fun _ _ hc => hc

/-- There are no more living entries than the arena counts. -/
theorem Counted.length_le_size (hc : a.Counted) {hs : List Handle} (hnodup : hs.Nodup)
    (hlive : ∀ h ∈ hs, a.contains h) : hs.length ≤ a.size := by
  rw [← List.length_map (f := (·.index))]
  refine hc _ (nodup_index hnodup hlive) fun i hi => ?_
  obtain ⟨h, hh, rfl⟩ := List.mem_map.1 hi
  obtain ⟨_, he⟩ := contains_iff.1 (hlive h hh)
  exact Option.isSome_of_eq_some (entry?_eq_some_iff.1 he).2

/-! ## All records -/

/-- How the records of an arena fit together. -/
structure Booked (a : Arena α) (log : HandleLog (Nat × α)) : Prop where
  /-- The entries are what was stored and not removed. -/
  entries : ∀ h e, a.entry? h = some e ↔ (h, e) ∈ log.survivors
  /-- The list of an owner has the slots of its entries, each once. -/
  owned_once : ∀ owner, (a.slotsOf owner).Nodup
  owned_iff : ∀ owner i, i ∈ a.slotsOf owner ↔ ∃ value, a.entryAt? i = some (owner, value)
  free_once : a.free.Nodup
  free_iff : ∀ i, i ∈ a.free ↔ i < a.slots.size ∧ a.entryAt? i = none
  size_eq : a.size = a.slots.countP (·.entry.isSome)
  /-- The list of the arena has every living handle with its value, in the order of the slots. -/
  listed_iff : ∀ h value, (h, value) ∈ a.toList ↔ a.get? h = some value
  listed_order : a.toList.Pairwise fun x y => x.1.index < y.1.index
  /-- Removing an owner returns its values in the order in which they were stored. -/
  returned : ∀ owner, (a.removeOwner owner).1 =
    (log.survivors.filter (·.2.1 = owner)).map (·.2.2)
  /-- Removing an owner changes nothing for the others. -/
  others : ∀ owner h, entry? (a.removeOwner owner).2 h =
    if a.ownerOf? h = some owner then none else a.entry? h

/-- The values are listed by the index of their slots. -/
theorem toList_ordered (a : Arena α) : a.toList.Pairwise fun x y => x.1.index < y.1.index := by
  refine List.Pairwise.filterMap _ (fun i j hlt x hx y hy => ?_) List.pairwise_lt_range
  obtain ⟨_, _, rfl⟩ := Option.map_eq_some_iff.1 hx
  obtain ⟨_, _, rfl⟩ := Option.map_eq_some_iff.1 hy
  exact hlt

/-- As many entries are living as slots are occupied. -/
theorem Kept.size_eq_countP (hk : Kept a log) : a.size = a.slots.countP (·.entry.isSome) := by
  rw [hk.size_eq, ← List.length_map (f := fun x : Handle × Nat × α => x.1.index)]
  refine length_eq_countP hk.distinct fun i => ?_
  have hentry : a.slots[i]?.any (·.entry.isSome) = (a.entryAt? i).isSome := by
    rw [entryAt?]
    cases a.slots[i]? <;> rfl
  rw [hentry, List.mem_map]
  constructor
  · rintro ⟨x, hx, rfl⟩
    rw [hk.entryAt?_of_mem hx]
    rfl
  · intro hsome
    obtain ⟨e, he⟩ := Option.isSome_iff_exists.1 hsome
    exact ⟨_, hk.exists_of_entryAt? he, rfl⟩

/-- Removing an owner gives back what it still held, in the order it was stored. -/
theorem Kept.removeOwner_values (hk : Kept a log) (owner : Nat) :
    (a.removeOwner owner).1 = (log.survivors.filter (·.2.1 = owner)).map (·.2.2) := by
  have hvalues := (releaseAll_values (a := { a with owners := a.owners.erase owner })
    (hk.sound.owned_nodup owner) fun i => isSome_of_mem_slotsOf hk.sound).1
  refine hvalues.trans ?_
  show (a.slotsOf owner).filterMap (fun i => (a.entryAt? i).map (·.2)) = _
  rw [hk.slots_eq, List.filterMap_map, ← List.filterMap_eq_map]
  apply List.filterMap_congr
  intro x hx
  rw [Function.comp_apply, hk.entryAt?_of_mem (List.mem_filter.1 hx).1]
  rfl

/-- The records of an arena whose log says what it holds fit together. -/
theorem Kept.booked (hk : Kept a log) : Booked a log := by
  have hs := hk.sound
  exact {
    entries := hk.entries
    owned_once := hs.owned_nodup
    owned_iff := fun owner i => by
      rw [hs.owned_iff, ownerAt?]
      simp
    free_once := hs.free_nodup
    free_iff := fun i => by
      rw [hs.free_iff, isSome_generation?, ownerAt?, Option.map_eq_none_iff]
    size_eq := hk.size_eq_countP
    listed_iff := fun _ _ => mem_toList_iff
    listed_order := a.toList_ordered
    returned := hk.removeOwner_values
    others := fun owner => (removeOwner_spec hs owner).1.entry?_eq }

/-- The records of an arena are exact after a run, and an owner is removed with exactly what is
stored for it, if and only if the run leaves no more slots than there are words of 32 bits. -/
theorem bookkeeping_exact (hlog : Logged a log) : Booked a log ↔ a.slots.size ≤ 4294967296 := by
  refine ⟨fun hbooked => ?_, fun hsize => (hlog.kept hsize).booked⟩
  by_contra hmany
  -- the first slot without a number is empty, but it never gets among the empty ones
  have hnumbered := hlog.numbered
  have hfree := (hbooked.free_iff 4294967296).2
    ⟨Nat.not_le.1 hmany, hnumbered.entryAt?_eq_none (Nat.le_refl _)⟩
  exact Nat.lt_irrefl _ (hnumbered.free_lt _ hfree)

/-- A slot goes over to another owner, whose list then does not follow the order of the slots. -/
theorem bookkeeping_exact_migrating : ∃ (a : Arena Nat) (log : HandleLog (Nat × Nat)),
    Logged a log ∧ Booked a log ∧ a.slotsOf 1 = [] ∧ a.slotsOf 2 = [1, 0] ∧
      (a.removeOwner 2).1 = [20, 30] := by
  have hstart : Logged ({} : Arena Nat) [] := .start
  have hfirst := hstart.stored 1 10
  have hsecond := hfirst.stored 2 20
  have hfreed := hsecond.freed ⟨0, 0⟩ rfl
  have hthird := hfreed.stored 2 30
  exact ⟨_, _, hthird, (bookkeeping_exact hthird).2 (by decide), by decide, by decide, by decide⟩

/-- After 2 ^ 32 + 1 entries, of which none was removed, the list of their owner has the first slot
twice, the last slot is empty but not among the empty ones, and the arena counts an entry that no
slot holds. -/
theorem bookkeeping_overrun :
    Logged (filled 4294967297) (fillingLog 4294967297) ∧
      ¬ ((filled 4294967297).slotsOf 1).Nodup ∧
      (4294967296 < (filled 4294967297).slots.size ∧
        (filled 4294967297).entryAt? 4294967296 = none ∧ 4294967296 ∉ (filled 4294967297).free) ∧
      (filled 4294967297).size ≠ (filled 4294967297).slots.countP (·.entry.isSome) := by
  have hbeyond := (logged_filled 4294967297).numbered.entryAt?_eq_none (Nat.le_refl 4294967296)
  have hlast : 4294967296 < (filled 4294967297).slots.size := by
    rw [size_slots_filled]
    decide
  refine ⟨logged_filled _, fun hnodup => ?_, ⟨hlast, hbeyond, ?_⟩, fun hsize => ?_⟩
  · rw [slotsOf_filled] at hnodup
    have heq : 0 = 4294967296 := List.inj_on_of_nodup_map hnodup (List.mem_range.2 (by decide))
      (List.mem_range.2 (by decide)) (by decide)
    exact absurd heq (by decide)
  · rw [free_filled]
    exact List.not_mem_nil
  · -- as many occupied slots as slots would occupy the last one
    rw [size_filled] at hsize
    have hall := Array.countP_eq_size.1 (hsize.symm.trans (size_slots_filled 4294967297).symm)
    have hsome := hall _ (Array.getElem_mem hlast)
    rw [entryAt?, Array.getElem?_eq_getElem hlast, Option.bind_some] at hbeyond
    rw [hbeyond] at hsome
    cases hsome

end Arena

end VaultKernel
