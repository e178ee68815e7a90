import VaultKernel.Proofs.Arena.Handles

/-!
# More slots than handles can name

Handles number slots by words of 32 bits, and an arena does not notice when it has more slots than
that. `Logged.numbered` says that the slots beyond are never used, and `Logged.repeats` that the
entry for which the first of them was added got the handle of a living entry. `filled n` is the
arena after `n` entries of which none was removed. `allocate_filled` says which handle the next
entry gets: the handles begin anew after 2 ^ 32 entries, and each new entry takes the place of a
living one.
-/

namespace VaultKernel.Arena

open HandleLog

/-! ## One entry -/

section One

variable {α : Type}

/-- Without empty slots, the next entry gets the slot behind the last one, modulo 2 ^ 32. -/
theorem index_allocate_of_full {a : Arena α} (hfree : a.free = []) (owner : Nat) (value : α) :
    (a.allocate owner value).1.index = a.slots.size % 4294967296 := by
  rw [allocate, takeSlot, hfree]
  rfl

/-- An entry is stored in the slot that it gets, whatever was there. -/
theorem entryAt?_allocate_of_full {a : Arena α} (hfree : a.free = []) (owner : Nat) (value : α)
    (i : Nat) : (a.allocate owner value).2.entryAt? i =
      if i = a.slots.size % 4294967296 then some (owner, value) else a.entryAt? i := by
  have hindex : a.slots.size % 4294967296 < (a.slots.push {}).size := by
    rw [Array.size_push]
    exact Nat.lt_succ_of_le (Nat.mod_le _ _)
  rw [allocate, takeSlot, hfree]
  refine (entryAt?_store { a with slots := a.slots.push {} } hindex _ _ _ _ i).trans ?_
  rw [entryAt?_push]

/-- An allocation returns the handle of its slot. -/
theorem handleAt_allocate_self (a : Arena α) (owner : Nat) (value : α) :
    (a.allocate owner value).2.handleAt (a.allocate owner value).1.index =
      (a.allocate owner value).1 := by
  have hgeneration := generation?_store a.takeSlot.2 a.takeSlot.1 (owner, value)
    a.takeSlot.2.free (a.takeSlot.2.owners.insert owner
      (a.takeSlot.1 :: a.takeSlot.2.owners.getD owner [])) (a.takeSlot.2.size + 1) a.takeSlot.1
  exact congrArg (fun g : Option UInt32 => (⟨a.takeSlot.1, g.getD 0⟩ : Handle)) hgeneration

/-- The slot that is added begins with the first generation. -/
theorem generation?_allocate_of_full {a : Arena α} (hfree : a.free = []) (owner : Nat) (value : α)
    (i : Nat) : (a.allocate owner value).2.generation? i =
      if i = a.slots.size then some 0 else a.generation? i := by
  rw [allocate, takeSlot, hfree]
  refine (generation?_store { a with slots := a.slots.push {} } _ _ _ _ _ i).trans ?_
  rw [generation?_push]

end One

/-! ## Every run -/

section Every

variable {α : Type} {a : Arena α} {log : HandleLog (Nat × α)}

/-- Slots whose numbers do not fit in 32 bits are not used and not among the empty ones. -/
structure Numbered (a : Arena α) : Prop where
  free_lt : ∀ i ∈ a.free, i < 4294967296
  entry_lt : ∀ i e, a.entryAt? i = some e → i < 4294967296

/-- A slot without a number is empty. -/
theorem Numbered.entryAt?_eq_none (hn : a.Numbered) {i : Nat} (hi : 4294967296 ≤ i) :
    a.entryAt? i = none :=
  Option.eq_none_iff_forall_ne_some.2 fun e he => Nat.not_lt.2 hi (hn.entry_lt i e he)

/-- The slot that the next entry takes has a number of 32 bits. -/
theorem Numbered.index_allocate_lt (hn : a.Numbered) (owner : Nat) (value : α) :
    (a.allocate owner value).1.index < 4294967296 := by
  have hfree := hn.free_lt
  unfold Arena.allocate takeSlot
  cases hlist : a.free with
  | nil => exact UInt32.toNat_lt _
  | cons i rest => exact hfree i (hlist ▸ List.mem_cons_self)

/-- An allocation uses a slot with a number. -/
theorem Numbered.allocate (hn : a.Numbered) (owner : Nat) (value : α) :
    (a.allocate owner value).2.Numbered := by
  have hfree : (a.allocate owner value).2.free ⊆ a.free := by
    unfold Arena.allocate takeSlot
    cases a.free with
    | nil => exact List.Subset.refl _
    | cons i rest => exact List.subset_cons_self i rest
  refine ⟨fun i hi => hn.free_lt i (hfree hi), fun i e he => ?_⟩
  rcases entryAt?_allocate_cases he with ⟨rfl, _⟩ | hold
  · exact hn.index_allocate_lt owner value
  · exact hn.entry_lt i e hold

/-- Rewriting a value uses no other slot. -/
theorem Numbered.modify (hn : a.Numbered) (h : Handle) (f : α → α) : (a.modify h f).Numbered := by
  have hfree : (a.modify h f).free = a.free := by
    unfold Arena.modify
    split <;> rfl
  refine ⟨hfree ▸ hn.free_lt, fun i e he => ?_⟩
  have howner : a.ownerAt? i = some e.1 := by
    rw [← ownerAt?_modify a h f, ownerAt?, he]
    rfl
  obtain ⟨e', he', _⟩ := Option.map_eq_some_iff.1 howner
  exact hn.entry_lt i e' he'

/-- A slot that is emptied had a number. -/
theorem Numbered.release (hn : a.Numbered) (i : Nat) : (a.release i).2.Numbered := by
  cases he : a.entryAt? i with
  | none =>
      rw [release_of_vacant he]
      exact hn
  | some e =>
      obtain ⟨hentry, _, hfree⟩ := release_spec he
      refine ⟨fun j hj => ?_, fun j e' he' => ?_⟩
      · rcases List.mem_cons.1 (hfree ▸ hj) with rfl | hold
        · exact hn.entry_lt j e he
        · exact hn.free_lt j hold
      · rw [hentry] at he'
        split at he'
        · cases he'
        · exact hn.entry_lt j e' he'

/-- In every run, only slots with numbers of 32 bits are used. -/
theorem Logged.numbered (hlog : Logged a log) : a.Numbered :=
  hlog.of_steps ⟨fun i hi => absurd hi List.not_mem_nil, fun i e he => by simp [entryAt?] at he⟩
    (fun _ owner value hn => hn.allocate owner value) (fun _ h f hn => hn.modify h f)
    (fun _ i hn => hn.release i) fun _ _ hn => ⟨hn.free_lt, hn.entry_lt⟩

/-- Without empty slots, every slot of a sound arena has an entry. -/
theorem Sound.exists_entryAt? (hs : a.Sound) (hfree : a.free = []) {i : Nat}
    (hi : i < a.slots.size) : ∃ e, a.entryAt? i = some e := by
  have hnot : ¬ i ∈ a.free := by
    rw [hfree]
    exact List.not_mem_nil
  rw [hs.free_iff, isSome_generation?, ownerAt?, Option.map_eq_none_iff] at hnot
  exact Option.ne_none_iff_exists'.1 fun hnone => hnot ⟨hi, hnone⟩

/-- The entry for which slot 2 ^ 32 is added gets the handle of the living entry in slot 0. -/
theorem Sound.allocate_reissues (hs : a.Sound) (hfree : a.free = [])
    (hsize : a.slots.size = 4294967296) (owner : Nat) (value : α) :
    a.contains (a.allocate owner value).1 := by
  have hindex : (a.allocate owner value).1.index = 0 := by
    rw [index_allocate_of_full hfree, hsize]
  have hgeneration : (a.allocate owner value).2.generation? 0 = a.generation? 0 := by
    rw [generation?_allocate_of_full hfree, hsize, if_neg (by decide)]
  have hhandle : (a.allocate owner value).1 = a.handleAt 0 := by
    rw [← handleAt_allocate_self, hindex]
    exact congrArg (fun g : Option UInt32 => (⟨0, g.getD 0⟩ : Handle)) hgeneration
  obtain ⟨e, he⟩ := hs.exists_entryAt? hfree (i := 0) (hsize ▸ by decide)
  exact contains_iff.2 ⟨e, hhandle ▸ entry?_handleAt he⟩

/-- A run that leaves more slots than there are numbers returned a handle twice. -/
theorem Logged.repeats (hlog : Logged a log) (hbound : log.Bounded)
    (hmany : 4294967296 < a.slots.size) : ¬ log.storedHandles.Nodup := by
  induction hlog with
  | start => exact absurd hmany (Nat.not_lt_zero _)
  | @stored a log owner value hlog ih =>
      rw [storedHandles, List.nodup_cons]
      rintro ⟨hfresh, hnodup⟩
      by_cases hbefore : 4294967296 < a.slots.size
      · exact ih hbound.tail hbefore hnodup
      · -- this entry added the first slot without a number
        rw [size_slots_allocate] at hmany
        have hfree : a.free = [] := by
          by_contra hne
          rw [if_neg hne] at hmany
          exact hbefore hmany
        rw [if_pos hfree] at hmany
        have hfull : a.slots.size = 4294967296 := by omega
        have hlive := (hlog.sound (by omega)).allocate_reissues hfree hfull owner value
        have htracked := hlog.tracked hbound.tail (by omega)
        refine hfresh (mem_storedHandles ?_)
        rw [← htracked.meaning]
        exact hlive
  | changed h f _ ih => exact ih hbound.tail (size_slots_modify _ h f ▸ hmany)
  | freed h _ _ ih => exact ih hbound.tail (size_slots_remove _ h ▸ hmany)
  | stale h _ _ ih => exact ih hbound (size_slots_remove _ h ▸ hmany)
  | removeOwner owner _ ih =>
      rw [storedHandles_removeAll]
      exact ih hbound.of_append (size_slots_removeOwner _ owner ▸ hmany)

end Every

/-! ## Many entries -/

/-- The arena after `n` entries of owner 1, the numbers below `n`. -/
def filled : Nat → Arena Nat
  | 0 => {}
  | n + 1 => ((filled n).allocate 1 n).2

/-- The log of these entries. -/
def fillingLog : Nat → HandleLog (Nat × Nat)
  | 0 => []
  | n + 1 => .stored ((filled n).allocate 1 n).1 (1, n) :: fillingLog n

/-- The long row of allocations is logged step by step. -/
theorem logged_filled (n : Nat) : Logged (filled n) (fillingLog n) := by
  induction n with
  | zero => exact .start
  | succ n ih => exact ih.stored 1 n

/-- No handle is removed while the arena is filled. -/
theorem vacancies_fillingLog (n i : Nat) : (fillingLog n).vacancies i = 0 := by
  induction n with
  | zero => rfl
  | succ n ih => exact ih

/-- No slot is vacant after the row of allocations. -/
theorem free_filled (n : Nat) : (filled n).free = [] := by
  induction n with
  | zero => rfl
  | succ n ih =>
      rw [filled, allocate, takeSlot, ih]

/-- Every allocation of the row appends a slot. -/
theorem size_slots_filled (n : Nat) : (filled n).slots.size = n := by
  induction n with
  | zero => rfl
  | succ n ih => rw [filled, size_slots_allocate, if_pos (free_filled n), ih]

/-- Every allocation of the row is counted. -/
theorem size_filled (n : Nat) : (filled n).size = n := by
  induction n with
  | zero => rfl
  | succ n ih =>
      rw [filled, allocate, takeSlot, free_filled]
      exact congrArg (· + 1) ih

/-- No generation has turned after the row of allocations. -/
theorem generation?_filled {n i : Nat} (hi : i < n) : (filled n).generation? i = some 0 := by
  induction n with
  | zero => exact absurd hi (Nat.not_lt_zero i)
  | succ n ih =>
      rw [filled, generation?_allocate_of_full (free_filled n), size_slots_filled]
      split
      · rfl
      · exact ih (by omega)

/-- The handles begin anew after 2 ^ 32 entries. -/
theorem allocate_filled (n : Nat) : ((filled n).allocate 1 n).1 = ⟨n % 4294967296, 0⟩ := by
  have hindex := index_allocate_of_full (free_filled n) 1 n
  rw [size_slots_filled] at hindex
  have hgeneration : (filled (n + 1)).generation? (n % 4294967296) = some 0 :=
    generation?_filled (Nat.lt_succ_of_le (Nat.mod_le _ _))
  rw [← handleAt_allocate_self, hindex]
  show (⟨_, ((filled (n + 1)).generation? (n % 4294967296)).getD 0⟩ : Handle) = _
  rw [hgeneration]
  rfl

/-- Every entry is logged under its handle. -/
theorem mem_fillingLog {n i : Nat} (hi : i < n) :
    .stored ⟨i % 4294967296, 0⟩ (1, i) ∈ fillingLog n := by
  induction n with
  | zero => exact absurd hi (Nat.not_lt_zero i)
  | succ n ih =>
      rw [fillingLog, allocate_filled]
      by_cases hin : i = n
      · rw [hin]
        exact List.mem_cons_self
      · exact List.mem_cons_of_mem _ (ih (by omega))

/-- The handles of the row carry their number modulo `2 ^ 32`. -/
theorem storedHandles_fillingLog (n : Nat) : (fillingLog n).storedHandles =
    ((List.range n).map fun i => (⟨i % 4294967296, 0⟩ : Handle)).reverse := by
  induction n with
  | zero => rfl
  | succ n ih =>
      rw [fillingLog, storedHandles, ih, allocate_filled, List.range_succ, List.map_append,
        List.reverse_append]
      rfl

/-- The last entry is in its slot. -/
theorem entry?_filled_succ (n : Nat) :
    entry? (filled (n + 1)) ⟨n % 4294967296, 0⟩ = some (1, n) := by
  refine entry?_eq_some_iff.2 ⟨generation?_filled (Nat.lt_succ_of_le (Nat.mod_le _ _)), ?_⟩
  rw [filled, entryAt?_allocate_of_full (free_filled n), size_slots_filled, if_pos rfl]

/-- The owner's list has the numbers modulo `2 ^ 32`, so a long row repeats them. -/
theorem slotsOf_filled (n : Nat) :
    (filled n).slotsOf 1 = (List.range n).map (· % 4294967296) := by
  induction n with
  | zero => rfl
  | succ n ih =>
      rw [filled, slotsOf_allocate, if_pos rfl, ih, allocate_filled, List.range_succ,
        List.map_append]
      rfl

end VaultKernel.Arena
