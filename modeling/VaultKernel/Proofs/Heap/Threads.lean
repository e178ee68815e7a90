import VaultKernel.Proofs.Heap.Slots

/-!
# The two lists that run through the slots

`Living h live` says that the headers of the occupied slots link exactly the slots `live`, in this
order, in both directions from `head` to `tail`. `Vacancies h vacant` says the same of the empty
slots from `freeHead` on. `Threads` joins the two: together they cover all slots. Read
`Threads.insert` and `Threads.remove` first: an allocation moves the first empty slot to the end of
the living ones, and a removal moves a living slot to the front of the empty ones.
-/

namespace VaultKernel.Heap

variable {α : Type}

/-- The headers link exactly these slots in this order. -/
structure Living (h : Heap α) (live : List Nat) : Prop where
  nodup : live.Nodup
  mem_iff : ∀ i, i ∈ live ↔ (h.entryAt? i).isSome
  head_eq : h.head = live.head?
  tail_eq : h.tail = live.getLast?
  /-- Each entry is linked to its neighbours in the list. -/
  links : ∀ before i after, live = before ++ i :: after → ∃ e, h.entryAt? i = some e ∧
    e.header.prev = before.getLast? ∧ e.header.next = after.head?

/-- These slots are empty and linked in this order. -/
structure Vacancies (h : Heap α) (vacant : List Nat) : Prop where
  nodup : vacant.Nodup
  unoccupied : ∀ i ∈ vacant, i < h.slots.size ∧ h.entryAt? i = none
  freeHead_eq : h.freeHead = vacant.head?
  links : ∀ before i after, vacant = before ++ i :: after → h.following? i = after.head?

/-- Every slot is in exactly one of the two lists. -/
structure Threads (h : Heap α) (live vacant : List Nat) : Prop where
  living : Living h live
  vacancies : Vacancies h vacant
  covers : ∀ i < h.slots.size, h.entryAt? i = none → i ∈ vacant

/-- Nothing is linked in an empty heap. -/
theorem Threads.empty (limits : HeapLimits) : Threads (Heap.empty limits : Heap α) [] [] := by
  refine ⟨⟨List.nodup_nil, ?_, rfl, rfl, by simp⟩, ⟨List.nodup_nil, by simp, rfl, by simp⟩, ?_⟩
  · intro i
    simp [entryAt?_eq, Heap.empty]
  · intro i hi
    simp [Heap.empty] at hi

/-- In a list without repetitions an element with a successor is not the last one. -/
theorem getLast?_ne_of_nodup {before more : List Nat} {i next : Nat}
    (hnodup : (before ++ i :: next :: more).Nodup) :
    (before ++ i :: next :: more).getLast? ≠ some i := by
  intro hlast
  rw [List.getLast?_append_of_ne_nil _ (by simp), List.getLast?_cons_cons] at hlast
  rw [List.nodup_middle, List.nodup_cons] at hnodup
  exact hnodup.1 (List.mem_append_right _ (List.mem_of_getLast? hlast))

/-! ## Operations that leave the links alone -/

/-- The links of an entry. -/
def linksAt? (h : Heap α) (i : Nat) : Option (Option Nat × Option Nat) :=
  (h.entryAt? i).map fun e => (e.header.prev, e.header.next)

/-- Exactly the occupied slots have links. -/
theorem isSome_linksAt? (h : Heap α) (i : Nat) : (h.linksAt? i).isSome = (h.entryAt? i).isSome := by
  simp [linksAt?]

/-- A slot in the list of the living is linked to the ones beside it. -/
theorem Living.links_iff {h : Heap α} {live before after : List Nat} {i : Nat} (hl : Living h live)
    (hlive : live = before ++ i :: after) :
    h.linksAt? i = some (before.getLast?, after.head?) := by
  obtain ⟨e, he, hprev, hnext⟩ := hl.links before i after hlive
  simp [linksAt?, he, hprev, hnext]

/-- Only the links of the entries matter to the list of living slots. -/
theorem Living.congr {h h' : Heap α} {live : List Nat} (hl : Living h live)
    (hhead : h'.head = h.head) (htail : h'.tail = h.tail)
    (hlinks : ∀ i, h'.linksAt? i = h.linksAt? i) : Living h' live := by
  refine ⟨hl.nodup, ?_, hhead.trans hl.head_eq, htail.trans hl.tail_eq, ?_⟩
  · intro i
    rw [hl.mem_iff, ← isSome_linksAt?, ← isSome_linksAt?, hlinks]
  · intro before i after hlive
    have hi := hlinks i
    rw [hl.links_iff hlive, linksAt?, Option.map_eq_some_iff] at hi
    obtain ⟨e, he, hpair⟩ := hi
    exact ⟨e, he, congrArg Prod.fst hpair, congrArg Prod.snd hpair⟩

/-- Only emptiness and the successors among the empty slots matter to the list of empty slots. -/
theorem Vacancies.congr {h h' : Heap α} {vacant : List Nat} (hv : Vacancies h vacant)
    (hfree : h'.freeHead = h.freeHead)
    (hempty : ∀ i ∈ vacant, i < h'.slots.size ∧ h'.entryAt? i = none)
    (hfollowing : ∀ i ∈ vacant, h'.following? i = h.following? i) : Vacancies h' vacant := by
  refine ⟨hv.nodup, hempty, hfree.trans hv.freeHead_eq, ?_⟩
  intro before i after hvacant
  have hi : i ∈ vacant := by simp [hvacant]
  rw [hfollowing i hi]
  exact hv.links before i after hvacant

/-- Updates of entries that keep their links keep both lists. -/
theorem Threads.modifyAt {h : Heap α} {live vacant : List Nat} (ht : Threads h live vacant)
    (k : Nat) (f : HeapEntry α → HeapEntry α)
    (hf : ∀ e, (f e).header.prev = e.header.prev ∧ (f e).header.next = e.header.next) :
    Threads (h.modifyAt k f) live vacant := by
  have hnone : ∀ i, (h.modifyAt k f).entryAt? i = none ↔ h.entryAt? i = none := by
    intro i
    rw [entryAt?_modifyAt]
    split <;> simp
  refine ⟨ht.living.congr rfl rfl ?_, ht.vacancies.congr rfl ?_ ?_, ?_⟩
  · intro i
    simp only [linksAt?, entryAt?_modifyAt]
    split
    · cases h.entryAt? i with
      | none => rfl
      | some e => simp [hf e]
    · rfl
  · intro i hi
    obtain ⟨hsize, hentry⟩ := ht.vacancies.unoccupied i hi
    exact ⟨by simpa using hsize, (hnone i).2 hentry⟩
  · intro i _
    simp
  · intro i hi hentry
    exact ht.covers i (by simpa using hi) ((hnone i).1 hentry)

/-! ## Allocation -/

/-- Taking a slot changes no entry. -/
theorem entryAt?_takeSlot? {h taken : Heap α} {index : Nat}
    (htake : h.takeSlot? = some (index, taken)) (i : Nat) :
    taken.entryAt? i = h.entryAt? i := by
  unfold takeSlot? at htake
  split at htake
  · simp only [Option.some.injEq, Prod.mk.injEq] at htake
    obtain ⟨rfl, rfl⟩ := htake
    simp only [entryAt?_eq, Array.getElem?_modify]
    split
    · cases h.slots[i]? <;> rfl
    · rfl
  · split at htake
    · simp only [Option.some.injEq, Prod.mk.injEq] at htake
      obtain ⟨rfl, rfl⟩ := htake
      simp only [entryAt?_eq, Array.getElem?_push]
      split
      · simp_all
      · rfl
    · simp at htake

/-- Taking a slot leaves the list of living slots as it is. -/
theorem head_takeSlot? {h taken : Heap α} {index : Nat}
    (htake : h.takeSlot? = some (index, taken)) :
    taken.head = h.head ∧ taken.tail = h.tail ∧ taken.stats = h.stats := by
  unfold takeSlot? at htake
  split at htake
  · cases htake
    exact ⟨rfl, rfl, rfl⟩
  · split at htake
    · cases htake
      exact ⟨rfl, rfl, rfl⟩
    · simp at htake

/-- The slot that is taken is the first empty one, or a new one after all others. -/
theorem Threads.takeSlot? {h taken : Heap α} {live vacant : List Nat} {index : Nat}
    (ht : Threads h live vacant) (htake : h.takeSlot? = some (index, taken)) :
    Living taken live ∧ Vacancies taken vacant.tail ∧ index = vacant.head?.getD h.slots.size ∧
      index < taken.slots.size ∧ h.entryAt? index = none ∧ index ∉ vacant.tail ∧
      ∀ i < taken.slots.size, taken.entryAt? i = none → i = index ∨ i ∈ vacant.tail := by
  have hentry := entryAt?_takeSlot? htake
  obtain ⟨hhead, htail, _⟩ := head_takeSlot? htake
  have hliving : Living taken live :=
    ht.living.congr hhead htail fun i => by simp only [linksAt?, hentry]
  have hfree := ht.vacancies.freeHead_eq
  refine ⟨hliving, ?_⟩
  unfold Heap.takeSlot? at htake
  cases vacant with
  | nil =>
      simp only [hfree, List.head?_nil] at htake
      split at htake
      · -- there was no empty slot, so the slots are one more than before
        simp only [Option.some.injEq, Prod.mk.injEq] at htake
        obtain ⟨rfl, rfl⟩ := htake
        refine ⟨⟨List.nodup_nil, by simp, rfl, by simp⟩, rfl, by simp, ?_, by simp, ?_⟩
        · simp [entryAt?_eq]
        · intro i hi hnone
          rw [hentry] at hnone
          simp only [Array.size_push] at hi
          rcases Nat.lt_succ_iff_lt_or_eq.1 hi with hlt | heq
          · exact absurd (ht.covers i hlt hnone) (by simp)
          · exact Or.inl heq
      · simp at htake
  | cons first rest =>
      simp only [hfree, List.head?_cons, Option.some.injEq, Prod.mk.injEq] at htake
      obtain ⟨rfl, rfl⟩ := htake
      have hnodup := List.nodup_cons.1 ht.vacancies.nodup
      obtain ⟨hsize, hnone⟩ := ht.vacancies.unoccupied first (by simp)
      refine ⟨⟨hnodup.2, ?_, ?_, ?_⟩, rfl, by simpa using hsize, hnone, hnodup.1, ?_⟩
      · intro i hi
        obtain ⟨hsi, hei⟩ := ht.vacancies.unoccupied i (List.mem_cons_of_mem _ hi)
        exact ⟨by simpa using hsi, (hentry i).trans hei⟩
      · exact ht.vacancies.links [] first rest rfl
      · intro before i after hrest
        rw [List.tail_cons] at hrest
        have hne : first ≠ i := by
          intro heq
          apply hnodup.1
          simp [hrest, heq]
        have hi := ht.vacancies.links (first :: before) i after (by simp [hrest])
        simpa [following?, Array.getElem?_modify, hne] using hi
      · intro i hi hei
        rw [hentry] at hei
        have hmem := ht.covers i (by simpa using hi) hei
        simpa using hmem

/-- The entries after a slot is linked: the new one, the old last one that now has a successor, and
the others. -/
theorem entryAt?_link (h : Heap α) {index : Nat} (value : α) (size : UInt64) (immortal : Bool)
    (hindex : index < h.slots.size) (i : Nat) :
    (h.link index value size immortal).entryAt? i =
      if index = i then some ⟨{ immortal, size, prev := h.tail }, value⟩
      else if h.tail = some i then
        (h.entryAt? i).map fun e => { e with header := { e.header with next := some index } }
      else h.entryAt? i := by
  have hslot : h.slots[index]? = some h.slots[index] := Array.getElem?_eq_getElem hindex
  unfold link
  cases htail : h.tail with
  | none =>
      simp only [entryAt?_eq, Array.getElem?_modify, reduceCtorEq, if_false]
      split
      · next heq => simp [← heq, hslot]
      · rfl
  | some last =>
      simp only [entryAt?_eq, Array.getElem?_modify, modifyHeader, modifyAt, Option.some.injEq]
      split
      · next heq =>
          subst heq
          simp only [hslot, htail]
          split <;> rfl
      · split
        · cases h.slots[i]? <;> rfl
        · rfl

/-- Linking an object turns no generation. -/
@[simp]
theorem generation?_link (h : Heap α) (index : Nat) (value : α) (size : UInt64) (immortal : Bool)
    (i : Nat) : (h.link index value size immortal).generation? i = h.generation? i := by
  unfold link
  cases h.tail with
  | none =>
      simp only [generation?, Array.getElem?_modify]
      split
      · cases h.slots[i]? <;> rfl
      · rfl
  | some last =>
      rw [← generation?_modifyAt h last i]
      simp only [generation?, Array.getElem?_modify, modifyHeader]
      split
      · cases (h.modifyAt last _).slots[i]? <;> rfl
      · rfl

/-- Linking an object leaves the list of the empty slots alone. -/
@[simp]
theorem following?_link (h : Heap α) (index : Nat) (value : α) (size : UInt64) (immortal : Bool)
    (i : Nat) : (h.link index value size immortal).following? i = h.following? i := by
  unfold link
  cases h.tail with
  | none =>
      simp only [following?, Array.getElem?_modify]
      split
      · cases h.slots[i]? <;> rfl
      · rfl
  | some last =>
      rw [← following?_modifyAt h last i]
      simp only [following?, Array.getElem?_modify, modifyHeader]
      split
      · cases (h.modifyAt last _).slots[i]? <;> rfl
      · rfl

@[simp]
theorem size_link (h : Heap α) (index : Nat) (value : α) (size : UInt64) (immortal : Bool) :
    (h.link index value size immortal).slots.size = h.slots.size := by
  unfold link
  cases h.tail <;> simp [modifyHeader]

/-- A new object is the last one of the list, and the first one if there was none. -/
theorem ends_link (h : Heap α) (index : Nat) (value : α) (size : UInt64) (immortal : Bool) :
    (h.link index value size immortal).head = (if h.tail = none then some index else h.head) ∧
      (h.link index value size immortal).tail = some index ∧
      (h.link index value size immortal).freeHead = h.freeHead ∧
      (h.link index value size immortal).stats = h.stats := by
  unfold link
  cases h.tail with
  | none => exact ⟨rfl, rfl, rfl, rfl⟩
  | some last => exact ⟨rfl, rfl, rfl, rfl⟩

/-- A linked slot is the last of the living ones. -/
theorem Living.link {h : Heap α} {live : List Nat} {index : Nat} (hl : Living h live)
    (hindex : index < h.slots.size) (hnone : h.entryAt? index = none) (value : α) (size : UInt64)
    (immortal : Bool) : Living (h.link index value size immortal) (live ++ [index]) := by
  have hentry := entryAt?_link h value size immortal hindex
  obtain ⟨hhead, htail, _, _⟩ := ends_link h index value size immortal
  have hfresh : index ∉ live := by
    rw [hl.mem_iff, hnone]
    simp
  have hisSome : ∀ i, ((h.link index value size immortal).entryAt? i).isSome =
      (decide (index = i) || (h.entryAt? i).isSome) := by
    intro i
    rw [hentry]
    split
    · simp_all
    · split <;> simp_all
  refine ⟨?_, ?_, ?_, ?_, ?_⟩
  · exact List.nodup_append_comm.1 (List.nodup_cons.2 ⟨hfresh, hl.nodup⟩)
  · intro i
    rw [List.mem_append, hl.mem_iff, hisSome]
    simp only [List.mem_singleton, Bool.or_eq_true, decide_eq_true_eq]
    tauto
  · rw [hhead, hl.tail_eq, hl.head_eq]
    cases live <;> simp
  · rw [htail]
    simp
  · intro before i after hlive
    rcases List.eq_nil_or_concat after with hafter | ⟨rest, last, hafter⟩
    · -- the new slot itself
      subst hafter
      obtain ⟨rfl, hsingle⟩ := List.append_inj' hlive rfl
      simp only [List.cons.injEq, and_true] at hsingle
      refine ⟨⟨{ immortal, size, prev := h.tail }, value⟩, ?_, hl.tail_eq, rfl⟩
      rw [hentry, if_pos hsingle]
    · subst hafter
      have hsplit : live ++ [index] = (before ++ i :: rest) ++ [last] := by
        simpa using hlive
      obtain ⟨hold, hlast⟩ := List.append_inj' hsplit rfl
      simp only [List.cons.injEq, and_true] at hlast
      subst hlast
      obtain ⟨e, he, hprev, hnext⟩ := hl.links before i rest hold
      have hne : index ≠ i := by
        intro heq
        exact hfresh (by simp [hold, heq])
      rw [hentry, if_neg hne, hl.tail_eq, hold]
      cases rest with
      | nil =>
          -- the slot that was the last one until now
          simp [he, hprev]
      | cons next more =>
          -- a slot further in front, which the new one does not touch
          rw [if_neg (getLast?_ne_of_nodup (hold ▸ hl.nodup))]
          exact ⟨e, he, hprev, by simpa using hnext⟩

/-- What a successful allocation did. -/
theorem insert_eq_ok {h h' : Heap α} {value : α} {size : UInt64} {immortal : Bool} {r : ObjectRef}
    (hinsert : h.insert value size immortal = .ok r h') :
    ∃ taken, h.takeSlot? = some (r.index, taken) ∧
      r.generation = (taken.generation? r.index).getD 0 ∧
      h' = (taken.link r.index value size immortal).countAllocation size := by
  unfold Heap.insert at hinsert
  split at hinsert
  · split at hinsert
    · next index taken htake =>
        split at hinsert
        · cases hinsert
          exact ⟨taken, htake, rfl, rfl⟩
        · cases hinsert
    · cases hinsert
  · cases hinsert

/-- An allocation that fails leaves the heap as it is. -/
theorem insert_eq_error {h h' : Heap α} {value : α} {size : UInt64} {immortal : Bool}
    {e : HeapError} (hinsert : h.insert value size immortal = .error e h') : h' = h := by
  unfold Heap.insert at hinsert
  split at hinsert
  · split at hinsert
    · split at hinsert
      · cases hinsert
      · cases hinsert
        rfl
    · cases hinsert
      rfl
  · cases hinsert
    rfl

/-- The lists do not depend on the counters. -/
theorem Threads.withStats {h : Heap α} {live vacant : List Nat} (ht : Threads h live vacant)
    (stats : HeapStats) : Threads { h with stats } live vacant :=
  ⟨ht.living.congr rfl rfl fun _ => rfl,
    ht.vacancies.congr rfl ht.vacancies.unoccupied fun _ _ => rfl, ht.covers⟩

/-- A successful allocation moves the first empty slot, or a new one, to the end of the living
ones. -/
theorem Threads.insert {h h' : Heap α} {live vacant : List Nat} {value : α} {size : UInt64}
    {immortal : Bool} {r : ObjectRef} (ht : Threads h live vacant)
    (hinsert : h.insert value size immortal = .ok r h') :
    Threads h' (live ++ [r.index]) vacant.tail ∧ r.index = vacant.head?.getD h.slots.size := by
  obtain ⟨taken, htake, _, rfl⟩ := insert_eq_ok hinsert
  obtain ⟨hliving, hvacant, hindex, hsize, hnone, hfresh, hcovers⟩ := ht.takeSlot? htake
  have htaken : taken.entryAt? r.index = none := (entryAt?_takeSlot? htake r.index).trans hnone
  have hentry := entryAt?_link taken value size immortal hsize
  have hempty : ∀ i, (taken.link r.index value size immortal).entryAt? i = none ↔
      r.index ≠ i ∧ taken.entryAt? i = none := by
    intro i
    rw [hentry]
    split
    · simp_all
    · split <;> simp_all
  refine ⟨Threads.withStats ⟨hliving.link hsize htaken value size immortal, ?_, ?_⟩ _, hindex⟩
  · refine hvacant.congr (ends_link _ _ _ _ _).2.2.1 ?_ ?_
    · intro i hi
      obtain ⟨hlt, hi'⟩ := hvacant.unoccupied i hi
      refine ⟨by simpa using hlt, (hempty i).2 ⟨?_, hi'⟩⟩
      intro heq
      exact hfresh (heq ▸ hi)
    · intro i _
      simp
  · intro i hi hi'
    obtain ⟨hne, hi'⟩ := (hempty i).1 hi'
    exact (hcovers i (by simpa using hi) hi').resolve_left (Ne.symm hne)

/-- Taking a slot keeps the generations of the others. -/
theorem generation?_takeSlot? {h taken : Heap α} {index : Nat}
    (htake : h.takeSlot? = some (index, taken)) {i : Nat} (hi : i ≠ index) :
    taken.generation? i = h.generation? i := by
  unfold takeSlot? at htake
  split at htake
  · simp only [Option.some.injEq, Prod.mk.injEq] at htake
    obtain ⟨rfl, rfl⟩ := htake
    simp only [generation?, Array.getElem?_modify]
    split
    · cases h.slots[i]? <;> rfl
    · rfl
  · split at htake
    · simp only [Option.some.injEq, Prod.mk.injEq] at htake
      obtain ⟨rfl, rfl⟩ := htake
      simp only [generation?, Array.getElem?_push, if_neg hi]
    · simp at htake

/-- A new object is seen through its handle alone. -/
theorem bare?_insert {h h' : Heap α} {live vacant : List Nat} {value : α} {size : UInt64}
    {immortal : Bool} {r : ObjectRef} (ht : Threads h live vacant)
    (hinsert : h.insert value size immortal = .ok r h') (q : ObjectRef) :
    h'.bare? q = if q = r then some ⟨{ immortal, size }, value⟩ else h.bare? q := by
  obtain ⟨taken, htake, hgen, rfl⟩ := insert_eq_ok hinsert
  obtain ⟨_, _, _, hsize, hnone, _, _⟩ := ht.takeSlot? htake
  have hslot : taken.generation? r.index = some r.generation := by
    rw [hgen, generation?, Array.getElem?_eq_getElem hsize]
    rfl
  have hlinked : ((taken.link r.index value size immortal).countAllocation size).bare? q =
      (taken.link r.index value size immortal).bare? q := rfl
  rw [hlinked]
  simp only [bare?, entry?_eq, generation?_link, entryAt?_link taken value size immortal hsize]
  by_cases hindex : q.index = r.index
  · by_cases hq : q = r
    · simp [hq, hslot, HeapEntry.bare]
    · -- an older handle of the slot that was taken again
      have hother : taken.generation? q.index ≠ some q.generation := by
        rw [hindex, hslot]
        intro heq
        apply hq
        cases q
        cases r
        simp_all
      rw [if_neg hother, if_neg hq, hindex, hnone]
      simp
  · have hq : q ≠ r := fun heq => hindex (by rw [heq])
    rw [generation?_takeSlot? htake hindex, if_neg (Ne.symm hindex), if_neg hq,
      entryAt?_takeSlot? htake]
    split
    · split
      · rw [Option.map_map]
        rfl
      · rfl
    · rfl

/-- A new object has a handle that led to nothing. -/
theorem not_contains_of_insert {h h' : Heap α} {live vacant : List Nat} {value : α} {size : UInt64}
    {immortal : Bool} {r : ObjectRef} (ht : Threads h live vacant)
    (hinsert : h.insert value size immortal = .ok r h') : ¬ h.contains r := by
  obtain ⟨taken, htake, _, _⟩ := insert_eq_ok hinsert
  obtain ⟨_, _, _, _, hnone, _, _⟩ := ht.takeSlot? htake
  rw [contains, entry?_eq, hnone, ite_self]
  simp

/-! ## Removal -/

/-- Vacating a slot empties it and no other. -/
@[simp]
theorem entryAt?_vacate (h : Heap α) (i j : Nat) :
    (h.vacate i).entryAt? j = if i = j then none else h.entryAt? j := by
  simp only [vacate, entryAt?_eq, Array.getElem?_modify]
  split
  · cases h.slots[j]? <;> rfl
  · rfl

/-- The entry in slot `j` after the slots `prev` and `next` were joined. -/
def joined (prev next : Option Nat) (j : Nat) (e : HeapEntry α) : HeapEntry α :=
  { e with header := { e.header with
      prev := if next = some j then prev else e.header.prev
      next := if prev = some j then next else e.header.next } }

/-- Unlinking joins the neighbours and changes no other entry. -/
theorem entryAt?_unlink (h : Heap α) (prev next : Option Nat) (j : Nat) :
    (h.unlink prev next).entryAt? j = (h.entryAt? j).map (joined prev next j) := by
  unfold joined
  cases prev with
  | none =>
      cases next with
      | none =>
          show h.entryAt? j = _
          simp
      | some n =>
          rw [unlink, modifyHeader, entryAt?_modifyAt]
          show (if n = j then (h.entryAt? j).map _ else h.entryAt? j) = _
          split <;> simp_all
  | some p =>
      cases next with
      | none =>
          show ((h.modifyHeader p fun x => { x with next := none }).entryAt? j) = _
          rw [modifyHeader, entryAt?_modifyAt]
          split <;> simp_all
      | some n =>
          simp only [unlink, modifyHeader, entryAt?_modifyAt]
          split <;> split <;> simp_all [Function.comp_def]

/-- The entries after the entry in a slot is removed. -/
theorem entryAt?_remove {h : Heap α} {i : Nat} {x : HeapEntry α} (hx : h.entryAt? i = some x)
    (j : Nat) :
    (h.remove i).entryAt? j =
      if i = j then none else (h.entryAt? j).map (joined x.header.prev x.header.next j) := by
  simp only [remove, hx]
  show ((h.vacate i).unlink x.header.prev x.header.next).entryAt? j = _
  rw [entryAt?_unlink, entryAt?_vacate]
  split <;> rfl

/-- Joining the neighbours of a slot touches nothing but their entries and the ends of the list. -/
theorem unlink_frame (h : Heap α) (prev next : Option Nat) (j : Nat) :
    (h.unlink prev next).generation? j = h.generation? j ∧
      (h.unlink prev next).following? j = h.following? j ∧
      (h.unlink prev next).slots.size = h.slots.size ∧
      (h.unlink prev next).freeHead = h.freeHead ∧
      (h.unlink prev next).head = (if prev = none then next else h.head) ∧
      (h.unlink prev next).tail = (if next = none then prev else h.tail) := by
  cases prev with
  | none =>
      cases next with
      | none => exact ⟨rfl, rfl, rfl, rfl, rfl, rfl⟩
      | some n =>
          refine ⟨?_, ?_, ?_, rfl, rfl, rfl⟩
          · exact generation?_modifyAt _ n j _
          · exact following?_modifyAt _ n j _
          · exact size_modifyAt _ n _
  | some p =>
      cases next with
      | none =>
          refine ⟨?_, ?_, ?_, rfl, rfl, rfl⟩
          · exact generation?_modifyAt _ p j _
          · exact following?_modifyAt _ p j _
          · exact size_modifyAt _ p _
      | some n => simp [unlink, modifyHeader]

/-- A removed slot moves on to the next generation and comes first among the empty ones. -/
theorem remove_frame {h : Heap α} {i : Nat} {x : HeapEntry α} (hx : h.entryAt? i = some x)
    (j : Nat) :
    (h.remove i).generation? j =
        (if i = j then (h.generation? j).map (· + 1) else h.generation? j) ∧
      (h.remove i).following? j = (if i = j then h.freeHead else h.following? j) ∧
      (h.remove i).slots.size = h.slots.size ∧
      (h.remove i).freeHead = some i ∧
      (h.remove i).head = (if x.header.prev = none then x.header.next else h.head) ∧
      (h.remove i).tail = (if x.header.next = none then x.header.prev else h.tail) := by
  have hi : i < h.slots.size := lt_size_of_entryAt? hx
  simp only [remove, hx]
  obtain ⟨hgen, hfollow, hsize, hfree, hhead, htail⟩ :=
    unlink_frame (h.vacate i) x.header.prev x.header.next j
  refine ⟨Eq.trans hgen ?_, Eq.trans hfollow ?_, Eq.trans hsize ?_, hfree, hhead, htail⟩
  · simp only [generation?, vacate, Array.getElem?_modify]
    split
    · cases h.slots[j]? <;> rfl
    · rfl
  · simp only [following?, vacate, Array.getElem?_modify]
    split
    · next heq =>
        subst heq
        simp [hi]
    · rfl
  · simp [vacate]

/-- Without a slot the living list joins the neighbours of the slot. -/
theorem Living.remove {h : Heap α} {before after : List Nat} {i : Nat}
    (hl : Living h (before ++ i :: after)) : Living (h.remove i) (before ++ after) := by
  obtain ⟨x, hx, hprev, hnext⟩ := hl.links before i after rfl
  have hentry := entryAt?_remove hx
  obtain ⟨_, _, _, _, hhead, htail⟩ := remove_frame hx i
  have hnodup := hl.nodup
  rw [List.nodup_middle, List.nodup_cons] at hnodup
  obtain ⟨hfresh, hrest⟩ := hnodup
  have hdisjoint := (List.nodup_append'.1 hrest).2.2
  refine ⟨hrest, ?_, ?_, ?_, ?_⟩
  · intro j
    have hj := hl.mem_iff j
    rw [hentry]
    by_cases hij : i = j
    · subst hij
      simpa using hfresh
    · have hji : j ≠ i := Ne.symm hij
      simp only [if_neg hij, Option.isSome_map]
      rw [← hj]
      simp [hji]
  · rw [hhead, hprev, hnext, hl.head_eq]
    cases before <;> simp
  · rw [htail, hprev, hnext, hl.tail_eq]
    cases after <;> simp
  · intro pre j post hsplit
    rcases List.append_eq_append_iff.1 hsplit.symm with ⟨mid, hbefore, hpost⟩ | ⟨mid, hpre, hafter⟩
    · cases mid with
      | nil =>
          -- the slot right after the removed one
          simp only [List.nil_append] at hpost
          simp only [List.append_nil] at hbefore
          subst hbefore hpost
          obtain ⟨e, he, _, hnext'⟩ := hl.links (before ++ [i]) j post (by simp)
          have hij : i ≠ j := fun heq => hfresh (by simp [heq])
          have hbefore : before.getLast? ≠ some j :=
            fun hlast => hdisjoint (List.mem_of_getLast? hlast) (by simp)
          refine ⟨_, by rw [hentry, if_neg hij, he]; rfl, ?_, ?_⟩
          · simp [joined, hnext, hprev]
          · simp [joined, hprev, hbefore, hnext']
      | cons first mid =>
          -- a slot before the removed one; its successor changes if it is right before it
          simp only [List.cons_append, List.cons.injEq] at hpost
          obtain ⟨rfl, rfl⟩ := hpost
          subst hbefore
          obtain ⟨e, he, hprev', hnext'⟩ := hl.links pre j (mid ++ i :: after) (by simp)
          have hij : i ≠ j := fun heq => hfresh (by simp [heq])
          have hafter : after.head? ≠ some j :=
            fun hfirst => hdisjoint (a := j) (by simp) (List.mem_of_mem_head? hfirst)
          refine ⟨_, by rw [hentry, if_neg hij, he]; rfl, ?_, ?_⟩
          · simp [joined, hnext, hafter, hprev']
          · cases mid with
            | nil => simp [joined, hprev, hnext]
            | cons second more =>
                have hlast := getLast?_ne_of_nodup (List.nodup_append'.1 hrest).1
                show (if x.header.prev = some j then _ else e.header.next) = _
                rw [hprev, if_neg hlast, hnext']
                rfl
    · -- a slot after the removed one
      subst hpre
      subst hafter
      obtain ⟨e, he, hprev', hnext'⟩ := hl.links (before ++ i :: mid) j post (by simp)
      have hij : i ≠ j := fun heq => hfresh (by simp [heq])
      have hbefore : before.getLast? ≠ some j :=
        fun hlast => hdisjoint (List.mem_of_getLast? hlast) (by simp)
      refine ⟨_, by rw [hentry, if_neg hij, he]; rfl, ?_, ?_⟩
      · cases mid with
        | nil => simp [joined, hnext, hprev]
        | cons second more =>
            have hfirst : second ≠ j := by
              intro heq
              have hpost := (List.nodup_append'.1 hrest).2.1
              rw [List.cons_append, List.nodup_cons] at hpost
              exact hpost.1 (by simp [heq])
            simp [joined, hnext, hfirst, hprev']
      · simp [joined, hprev, hbefore, hnext']

/-- A removal moves a living slot to the front of the empty ones. -/
theorem Threads.remove {h : Heap α} {live vacant : List Nat} {i : Nat} (ht : Threads h live vacant)
    (hi : i ∈ live) : Threads (h.remove i) (live.erase i) (i :: vacant) := by
  obtain ⟨before, after, hfresh, rfl⟩ : ∃ before after, i ∉ before ∧ live = before ++ i :: after :=
    List.eq_append_cons_of_mem hi |>.imp fun _ ⟨after, hlive, hfresh⟩ => ⟨after, hfresh, hlive⟩
  have hl := ht.living
  obtain ⟨x, hx, _, _⟩ := hl.links before i after rfl
  have hentry := entryAt?_remove hx
  have hframe := remove_frame hx
  have hsize : (h.remove i).slots.size = h.slots.size := (hframe i).2.2.1
  have hvacant : i ∉ vacant := by
    intro hmem
    have hnone := (ht.vacancies.unoccupied i hmem).2
    rw [hx] at hnone
    cases hnone
  have hempty : ∀ j, (h.remove i).entryAt? j = none ↔ i = j ∨ h.entryAt? j = none := by
    intro j
    rw [hentry]
    split <;> simp_all
  rw [List.erase_append_right _ hfresh, List.erase_cons_head]
  refine ⟨hl.remove, ⟨List.nodup_cons.2 ⟨hvacant, ht.vacancies.nodup⟩, ?_, ?_, ?_⟩, ?_⟩
  · intro j hj
    rw [hsize, hempty]
    rcases List.mem_cons.1 hj with rfl | hj
    · exact ⟨lt_size_of_entryAt? hx, Or.inl rfl⟩
    · obtain ⟨hlt, hnone⟩ := ht.vacancies.unoccupied j hj
      exact ⟨hlt, Or.inr hnone⟩
  · exact (hframe i).2.2.2.1
  · intro pre j post hsplit
    rw [(hframe j).2.1]
    cases pre with
    | nil =>
        -- the removed slot is followed by what was the first empty one
        simp only [List.nil_append, List.cons.injEq] at hsplit
        rw [if_pos hsplit.1, ht.vacancies.freeHead_eq, hsplit.2]
    | cons first rest =>
        simp only [List.cons_append, List.cons.injEq] at hsplit
        have hij : i ≠ j := fun heq => hvacant (by simp [hsplit.2, heq])
        rw [if_neg hij]
        exact ht.vacancies.links rest j post hsplit.2
  · intro j hj hnone
    rcases (hempty j).1 hnone with rfl | hnone
    · simp
    · exact List.mem_cons_of_mem _ (ht.covers j (hsize ▸ hj) hnone)

/-! ## Walks -/

/-- There are no more living slots than slots. -/
theorem Living.length_le {h : Heap α} {live : List Nat} (hl : Living h live) :
    live.length ≤ h.slots.size := by
  have hsub : live ⊆ List.range h.slots.size := by
    intro i hi
    obtain ⟨e, he⟩ := Option.isSome_iff_exists.1 ((hl.mem_iff i).1 hi)
    exact List.mem_range.2 (lt_size_of_entryAt? he)
  simpa using hl.nodup.length_le_of_subset hsub

/-- From any point on, the walk along the headers visits the rest of the living list. -/
theorem Living.slotsFrom_eq {h : Heap α} {after : List Nat} {fuel : Nat} (before : List Nat)
    (hl : Living h (before ++ after)) (hfuel : after.length ≤ fuel) :
    h.slotsFrom fuel after.head? = after := by
  induction after generalizing before fuel with
  | nil => cases fuel <;> rfl
  | cons i rest ih =>
      cases fuel with
      | zero => simp at hfuel
      | succ fuel =>
          obtain ⟨e, he, _, hnext⟩ := hl.links before i rest rfl
          have hrest : h.slotsFrom fuel rest.head? = rest :=
            ih (before ++ [i]) (by simpa using hl) (by simpa using hfuel)
          simp [slotsFrom, he, hnext, hrest]

/-- The walk from the head of the list visits exactly the living slots. -/
theorem Living.occupied_eq {h : Heap α} {live : List Nat} (hl : Living h live) :
    h.occupied = live := by
  rw [occupied, hl.head_eq]
  exact Living.slotsFrom_eq [] hl hl.length_le

/-- The living objects are listed in the order of their links. -/
theorem Living.handles_eq {h : Heap α} {live : List Nat} (hl : Living h live) :
    h.handles = live.map h.handleAt := by
  rw [handles, hl.occupied_eq]

/-- The list of the living objects has exactly those that live. -/
theorem Living.mem_handles_iff {h : Heap α} {live : List Nat} (hl : Living h live)
    (r : ObjectRef) : r ∈ h.handles ↔ h.contains r := by
  rw [hl.handles_eq, List.mem_map]
  constructor
  · rintro ⟨i, hi, rfl⟩
    rw [contains, entry?_handleAt]
    exact (hl.mem_iff i).1 hi
  · intro hr
    obtain ⟨e, he⟩ := Option.isSome_iff_exists.1 hr
    refine ⟨r.index, ?_, handleAt_eq_of_entry he⟩
    rw [hl.mem_iff, (entry?_eq_some_iff.1 he).2]
    rfl

/-- No two living objects share a slot. -/
theorem Living.nodup_indices {h : Heap α} {live : List Nat} (hl : Living h live) :
    (h.handles.map (·.index)).Nodup := by
  rw [hl.handles_eq, List.map_map]
  simpa [Function.comp_def] using hl.nodup

end VaultKernel.Heap
