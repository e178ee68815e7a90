import VaultKernel.Proofs.Arena.Slots

/-!
# Handles to come

Which handles the next entries get depends on the empty slots and their generations alone, so they
are known before anything is stored. `upcoming_allocate` says that the first of them is the one that
an allocation returns and that the others stay; a change of a value leaves all of them alone.
-/

namespace VaultKernel.Arena

variable {α : Type} {a : Arena α}

/-- The handles of the next entries, the next one in front. -/
def upcoming (a : Arena α) (n : Nat) : List Handle :=
  ((a.free ++ List.range' a.slots.size n).take n).map a.handleAt

theorem length_upcoming (a : Arena α) (n : Nat) : (a.upcoming n).length = n := by
  simp [upcoming]

theorem handleAt_eq (a : Arena α) (i : Nat) : a.handleAt i = ⟨i, (a.generation? i).getD 0⟩ := rfl

/-- Rewriting a value changes no handle that is still to come. -/
theorem upcoming_modify (a : Arena α) (h : Handle) (f : α → α) (n : Nat) :
    (a.modify h f).upcoming n = a.upcoming n := by
  have hhandle : (a.modify h f).handleAt = a.handleAt := by
    funext i
    rw [handleAt_eq, handleAt_eq, generation?_modify]
  have hsame : (a.modify h f).free = a.free ∧ (a.modify h f).slots.size = a.slots.size := by
    unfold modify
    split <;> simp
  rw [upcoming, hhandle, hsame.1, hsame.2, upcoming]

/-- Whatever lies beyond the first handles does not matter. -/
theorem take_append_range' (free : List Nat) (start : Nat) {k n : Nat} (hle : k ≤ n) :
    (free ++ List.range' start n).take k = (free ++ List.range' start k).take k := by
  obtain ⟨d, rfl⟩ := Nat.exists_eq_add_of_le hle
  rw [← List.range'_append_1, ← List.append_assoc, List.take_append_of_le_length]
  simp

/-- The handles that come next come first in every longer row of them. -/
theorem upcoming_take (a : Arena α) {k n : Nat} (hle : k ≤ n) :
    (a.upcoming n).take k = a.upcoming k := by
  rw [upcoming, ← List.map_take, List.take_take, Nat.min_eq_left hle, take_append_range' _ _ hle,
    upcoming]

/-- The handle of a slot is the same before and after an allocation. -/
theorem handleAt_allocate (hs : a.Sound) (hroom : a.HasRoom) (owner : Nat) (value : α) :
    (a.allocate owner value).2.handleAt = a.handleAt := by
  have hall := allocate_spec hs hroom owner value
  funext i
  rw [handleAt_eq, handleAt_eq, hall.generations]
  by_cases hi : i = (a.allocate owner value).1.index
  · rw [if_pos hi, hi, ← hall.generation_eq]
    rfl
  · rw [if_neg hi]

/-- An allocation returns the first of the upcoming handles and leaves the others. -/
theorem upcoming_allocate (hs : a.Sound) (hroom : a.HasRoom) (owner : Nat) (value : α) (n : Nat) :
    a.upcoming (n + 1) = (a.allocate owner value).1 :: (a.allocate owner value).2.upcoming n := by
  have hfirst : (a.allocate owner value).1 = a.handleAt (a.allocate owner value).1.index := by
    rw [handleAt_eq, (allocate_spec hs hroom owner value).generation_eq]
  rw [hfirst, upcoming, upcoming, handleAt_allocate hs hroom]
  cases hfree : a.free with
  | nil =>
      have hindex : (a.allocate owner value).1.index = a.slots.size := by
        rw [allocate, hroom.takeSlot_eq hfree]
      have hslots : (a.allocate owner value).2.slots.size = a.slots.size + 1 := by
        rw [size_slots_allocate, if_pos hfree]
      have hrest : (a.allocate owner value).2.free = [] := by
        simp [allocate, takeSlot, hfree]
      rw [hindex, hslots, hrest, List.nil_append, List.nil_append, List.range'_succ,
        List.take_succ_cons, List.map_cons]
  | cons index free =>
      have hindex : (a.allocate owner value).1.index = index := by
        simp [allocate, takeSlot, hfree]
      have hslots : (a.allocate owner value).2.slots.size = a.slots.size := by
        simp [allocate, takeSlot, hfree]
      have hrest : (a.allocate owner value).2.free = free := by
        simp [allocate, takeSlot, hfree]
      rw [hindex, hslots, hrest, List.cons_append, List.take_succ_cons, List.map_cons,
        take_append_range' _ _ (Nat.le_succ n)]

/-- Nothing is stored under an upcoming handle. -/
theorem entry?_of_mem_upcoming (hs : a.Sound) {n : Nat} {h : Handle} (hh : h ∈ a.upcoming n) :
    a.entry? h = none := by
  obtain ⟨i, hi, rfl⟩ := List.mem_map.1 hh
  have hvacant : a.entryAt? i = none := by
    rcases List.mem_append.1 (List.mem_of_mem_take hi) with hfree | hbeyond
    · simpa [ownerAt?] using ((hs.free_iff i).1 hfree).2
    · have hle := (List.mem_range'_1.1 hbeyond).1
      rw [entryAt?, Array.getElem?_eq_none hle]
      rfl
  rw [entry?_eq]
  split
  · exact hvacant
  · rfl

/-- The handles that are still to come differ from one another. -/
theorem nodup_upcoming (hs : a.Sound) (n : Nat) : (a.upcoming n).Nodup := by
  have hindices : (a.free ++ List.range' a.slots.size n).Nodup := by
    refine List.Nodup.append hs.free_nodup List.nodup_range' fun i hfree hbeyond => ?_
    have hlt := (isSome_generation? a i).1 ((hs.free_iff i).1 hfree).1
    have hle := (List.mem_range'_1.1 hbeyond).1
    omega
  refine (hindices.sublist (List.take_sublist _ _)).map fun i j hij => ?_
  exact congrArg Handle.index hij

end VaultKernel.Arena
