import VaultKernel.Proofs.Arena.Handles

/-!
# Slots that are filled and vacated again

The slot vacated last is filled first, so an entry that is stored and removed, time after time, goes
to the same slot each time (`turns`). All that a turn leaves behind is the next generation of that
slot (`turns_spec`), and generations are words of 32 bits: after 2 ^ 32 turns the handle that was
returned first is returned again (`allocate_turns`).
-/

namespace VaultKernel.Arena

variable {α : Type} {a a' a'' : Arena α} {i : Nat} {rest : List Nat}

/-- An entry is stored and removed, `n` times. -/
def turns (owner : Nat) (value : α) : Nat → Arena α → Arena α
  | 0, a => a
  | n + 1, a =>
    turns owner value n ((a.allocate owner value).2.remove (a.allocate owner value).1).2

/-- Only the generation of one slot is another one, `n` steps ahead. -/
structure Turned (n : Nat) (i : Nat) (a a' : Arena α) : Prop where
  sound : a'.Sound
  free_eq : a'.free = a.free
  entries : ∀ j, a'.entryAt? j = a.entryAt? j
  generations : ∀ j, a'.generation? j =
    if j = i then (a.generation? j).map (· + UInt32.ofNat n) else a.generation? j

/-- No turn of a slot changes nothing. -/
theorem Turned.refl (hs : a.Sound) (i : Nat) : Turned 0 i a a := by
  refine ⟨hs, rfl, fun _ => rfl, fun j => ?_⟩
  split
  · cases a.generation? j <;> simp
  · rfl

/-- Turns of one slot add up. -/
theorem Turned.trans {m n : Nat} (h : Turned m i a a') (h' : Turned n i a' a'') :
    Turned (n + m) i a a'' := by
  refine ⟨h'.sound, h'.free_eq.trans h.free_eq, fun j => (h'.entries j).trans (h.entries j),
    fun j => ?_⟩
  rw [h'.generations, h.generations]
  by_cases hj : j = i
  · rw [if_pos hj, if_pos hj, if_pos hj, Option.map_map]
    congr 1
    funext g
    show g + UInt32.ofNat m + UInt32.ofNat n = g + UInt32.ofNat (n + m)
    rw [UInt32.ofNat_add, UInt32.add_assoc, UInt32.add_comm (UInt32.ofNat m)]
  · rw [if_neg hj, if_neg hj, if_neg hj]

/-- What is in the other slots is where it was. -/
theorem Turned.entry?_eq {n : Nat} (h : Turned n i a a') (hvacant : a.entryAt? i = none)
    (q : Handle) : a'.entry? q = a.entry? q := by
  rw [Arena.entry?_eq, Arena.entry?_eq, h.entries, h.generations]
  by_cases hq : q.index = i
  · rw [hq, hvacant, ite_self, ite_self]
  · rw [if_neg hq]

/-- The entry goes to the slot on top of the stack, under the generation of this slot. -/
theorem allocate_of_free (hfree : a.free = i :: rest) (owner : Nat) (value : α) :
    (a.allocate owner value).1 = ⟨i, (a.generation? i).getD 0⟩ ∧
      (a.allocate owner value).2.free = rest := by
  rw [allocate, takeSlot, hfree]
  exact ⟨rfl, rfl⟩

/-- A turn puts the slot back where it was, one generation on. -/
theorem turn_spec (hs : a.Sound) (hfree : a.free = i :: rest) (owner : Nat) (value : α) :
    Turned 1 i a ((a.allocate owner value).2.remove (a.allocate owner value).1).2 := by
  have hroom : a.HasRoom := Or.inl (by simp [hfree])
  have hall := allocate_spec hs hroom owner value
  obtain ⟨hhandle, hrest⟩ := allocate_of_free hfree owner value
  have hindex : (a.allocate owner value).1.index = i := congrArg Handle.index hhandle
  obtain ⟨hvacated, hsound⟩ := remove_spec (hs.allocate hroom owner value) hall.entry?_self
  have hvacant : a.entryAt? i = none := by
    have hnone := hall.vacant
    rwa [hindex, ownerAt?, Option.map_eq_none_iff] at hnone
  refine ⟨hsound, ?_, fun j => ?_, fun j => ?_⟩
  · rw [(remove_frame hall.entry?_self).2.2, hrest, hindex, hfree]
  · rw [hvacated.entries, hall.entries, hindex]
    by_cases hj : j = i
    · rw [if_pos hj, hj, hvacant]
    · rw [if_neg hj, if_neg hj]
  · rw [hvacated.generations, hall.generations, hindex]
    by_cases hj : j = i
    · obtain ⟨hsome, _⟩ := (hs.free_iff i).1 (by simp [hfree])
      obtain ⟨g, hg⟩ := Option.isSome_iff_exists.1 hsome
      rw [if_pos hj, if_pos hj, if_pos hj, hj, hg, hhandle, hg]
      rfl
    · rw [if_neg hj, if_neg hj, if_neg hj]

/-- After `n` turns the slot is `n` generations on and everything else is as it was. -/
theorem turns_spec (hs : a.Sound) (hfree : a.free = i :: rest) (owner : Nat) (value : α) (n : Nat) :
    Turned n i a (a.turns owner value n) := by
  induction n generalizing a with
  | zero => exact .refl hs i
  | succ n ih =>
      have hturn := turn_spec hs hfree owner value
      exact hturn.trans (ih hturn.sound (hturn.free_eq.trans hfree))

/-- The handle that was returned first is returned again after 2 ^ 32 turns. -/
theorem allocate_turns (hs : a.Sound) (hfree : a.free = i :: rest) (owner owner' : Nat)
    (value value' : α) : ((a.turns owner value 4294967296).allocate owner' value').1 =
      (a.allocate owner' value').1 := by
  have hturns := turns_spec hs hfree owner value 4294967296
  have hwrapped : (a.generation? i).map (· + UInt32.ofNat 4294967296) = a.generation? i := by
    cases a.generation? i <;> simp
  rw [(allocate_of_free (hturns.free_eq.trans hfree) owner' value').1, hturns.generations,
    if_pos rfl, hwrapped, (allocate_of_free hfree owner' value').1]

end VaultKernel.Arena
