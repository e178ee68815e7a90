import VaultKernel.Proofs.Heap.Requests
import VaultKernel.Proofs.Vault.CoreClasses
import VaultKernel.Proofs.Vault.Objects

/-!
# What an allocation does

An allocation of more bytes than a word can tell stops the process. Any other one first collects if
a collection is due. The heap that is left grants the request or it does not
(`allocateSized_cases`): either there is a new object under a handle that led to nothing
(`Allocates`), or the call fails with the number of bytes that it asked for, or the counters of the
heap have no room for these bytes and the process stops (`Declines`). A slot of the new object can
be written like that of any other one (`Allocates.written`).
-/

namespace VaultKernel

open Heap

namespace Vault

variable {v w : Vault} {r q : ObjectRef} {o : Object} {size : UInt64} {type : ClassRef} {c : Class}
  {l : Layout}

/-- The vault in which a new object is stored: a collection that was due has come first. -/
def relieved (v : Vault) : Vault := if v.heap.isCollectionDue then v.collected.2 else v

/-- Why a request fails after the collection that may be due: there is no memory for it, or its
bytes cannot be counted and the process stops. -/
inductive Declines (v : Vault) (size : UInt64) : Failure → Prop where
  | short : ¬ v.relieved.heap.grants size → Declines v size (.fatal (.outOfMemory size
      v.relieved.heap.stats.aliveBytes v.relieved.heap.limits.maxBytes))
  | stopped : v.relieved.heap.grants size → ¬ v.relieved.heap.canCount size →
      Declines v size .overflow

/-- A new object was stored, after a collection if one was due. -/
structure Allocates (v : Vault) (o : Object) (size : UInt64) (r : ObjectRef) (w : Vault) :
    Prop where
  granted : v.relieved.heap.grants size
  counted : v.relieved.heap.canCount size
  fresh : ¬ v.heap.contains r
  stored : w.heap.bare? r = some ⟨{ immortal := false, size }, o⟩
  stats : w.heap.stats = (v.relieved.heap.countAllocation size).stats
  rest : w = { v with heap := w.heap }

/-- The new object is there. -/
theorem Allocates.get? (h : v.Allocates o size r w) : w.heap.get? r = some o := by
  rw [get?_eq_map_bare?, h.stored]
  rfl

/-! ## Relief -/

/-- The step before an allocation never fails. -/
theorem collectIfDue_eq (v : Vault) : Run.collectIfDue v = .ok () v.relieved := by
  unfold Run.collectIfDue relieved
  rw [get_bind]
  cases v.heap.isCollectionDue <;> rfl

/-- That step changes the heap only. -/
theorem relieved_rest (v : Vault) : v.relieved = { v with heap := v.relieved.heap } := by
  unfold relieved
  split <;> rfl

/-- That step keeps the heap in order. -/
theorem Orderly.relieved (ho : v.Orderly) : v.relieved.Orderly := by
  unfold Vault.relieved
  split
  · exact (Tended.collected v).orderly ho
  · exact ho

/-- What an allocation hands out is new with regard to the vault before the collection. -/
theorem Orderly.ages_relieved (ho : v.Orderly) : Ages v.heap v.relieved.heap := by
  unfold Vault.relieved
  split
  · obtain ⟨_, _, _, hk⟩ := ho.kept
    exact ages_collect hk.tidy hk.white v.roots
  · exact (Recolored.refl v.heap).ages

/-! ## Allocation -/

/-- The payload of an object is told by a word, or the process stops. -/
theorem newObject_eq (hc : v.class? type = some c) (hcompleted : c.isCompleted)
    (hl : c.layout = some l) (extra : Nat) : v.newObject type extra =
      if (l.size + extra) * slotSize.toNat < 18446744073709551616 then
        .ok (Object.blank type l.size, UInt64.ofNat ((l.size + extra) * slotSize.toNat))
      else .error .overflow := by
  have hslots : c.slotCount = l.size := by rw [Class.slotCount, hl]; rfl
  unfold newObject
  rw [classOf_eq_ok.2 hc]
  show (if !c.isCompleted || c.layout.isNone then _ else _) = _
  rw [hcompleted, hl, hslots]
  rfl

/-- A payload that is no word stops the process before anything happens. -/
theorem allocateSized_overflow (hopen : v.disposed = none) (hc : v.class? type = some c)
    (hcompleted : c.isCompleted) (hl : c.layout = some l) {extra : Nat}
    (hbytes : 18446744073709551616 ≤ (l.size + extra) * slotSize.toNat) :
    Run.allocateSized type extra v = .error .overflow v := by
  have halive : v.ensureAlive = .ok () := by rw [ensureAlive, hopen]; rfl
  have hnew := newObject_eq hc hcompleted hl extra
  rw [if_neg (Nat.not_lt.2 hbytes)] at hnew
  unfold Run.allocateSized
  rw [ask_bind halive]
  refine bind_of_eq_error (x := Run.ask _) ?_
  simp only [Run.ask, hnew]

/-- An allocation of a size that fits into a word is a request for as many bytes. -/
theorem allocateSized_eq (hopen : v.disposed = none) (hc : v.class? type = some c)
    (hcompleted : c.isCompleted) (hl : c.layout = some l) {extra : Nat}
    (hsize : size.toNat = (l.size + extra) * slotSize.toNat) :
    Run.allocateSized type extra v =
      Run.store (Object.blank type l.size) size false v.relieved := by
  have halive : v.ensureAlive = .ok () := by rw [ensureAlive, hopen]; rfl
  have hnew := newObject_eq hc hcompleted hl extra
  rw [← hsize, if_pos size.toNat_lt, UInt64.ofNat_toNat] at hnew
  unfold Run.allocateSized
  rw [ask_bind halive, ask_bind hnew]
  exact bind_of_eq_ok (collectIfDue_eq v) rfl

/-- An object is stored if there is memory for it. -/
theorem store_cases (ho : v.Orderly) (o : Object) (size : UInt64) :
    (∃ r w, Run.store o size false v.relieved = .ok r w ∧ v.Allocates o size r w) ∨
      ∃ e, v.Declines size e ∧ Run.store o size false v.relieved = .error e v.relieved := by
  by_cases hgrants : v.relieved.heap.grants size
  · by_cases hcount : v.relieved.heap.canCount size
    · obtain ⟨r, heap, hinsert⟩ := insert_of_grants hgrants hcount o false
      obtain ⟨_, _, _, hk⟩ := ho.relieved.kept
      refine Or.inl ⟨r, { v.relieved with heap }, ?_, hgrants, hcount,
        ho.ages_relieved.not_contains hk.tidy.toThreads hinsert, ?_, stats_insert hinsert, ?_⟩
      · simp only [Run.store, hinsert]
      · show heap.bare? r = _
        rw [bare?_insert hk.tidy.toThreads hinsert, if_pos rfl]
      · rw [relieved_rest v]
    · refine Or.inr ⟨_, .stopped hgrants hcount, ?_⟩
      simp only [Run.store, insert_of_not_canCount hgrants hcount]
      rfl
  · refine Or.inr ⟨_, .short hgrants, ?_⟩
    simp only [Run.store, insert_of_not_grants hgrants]
    rfl

/-- An allocation of a size that fits into a word is granted, refused or stopped. -/
theorem allocateSized_cases (ho : v.Orderly) (hopen : v.disposed = none)
    (hc : v.class? type = some c) (hcompleted : c.isCompleted) (hl : c.layout = some l)
    {extra : Nat} (hsize : size.toNat = (l.size + extra) * slotSize.toNat) :
    (∃ r w, Run.allocateSized type extra v = .ok r w ∧
        v.Allocates (Object.blank type l.size) size r w) ∨
      ∃ e, v.Declines size e ∧ Run.allocateSized type extra v = .error e v.relieved := by
  rw [allocateSized_eq hopen hc hcompleted hl hsize]
  exact store_cases ho _ _

/-! ## Writing to a new object -/

/-- The new object may be written. -/
theorem Allocates.written (h : v.Allocates o size r w) (offset : Nat) (value : Value) :
    v.Allocates (o.setSlot offset value) size r (w.written r offset value) := by
  refine ⟨h.granted, h.counted, h.fresh, ?_, (stats_modify _ _ _).trans h.stats, ?_⟩
  · rw [Vault.written, bare?_modify, if_pos rfl, h.stored]
    rfl
  · rw [h.rest]
    rfl

/-- A new object with a number of slots has that number of slots after one of them was written. -/
theorem Allocates.setSlot {k : Nat} (h : v.Allocates o size r w) (hk : o.slots.size = k)
    (offset : Nat) (hoffset : offset < k) (value : Value) :
    Run.setSlot r offset value w = .ok () (w.written r offset value) ∧
      v.Allocates (o.setSlot offset value) size r (w.written r offset value) ∧
      (o.setSlot offset value).slots.size = k :=
  ⟨setSlot_eq_ok h.get? (hk ▸ hoffset) value, h.written offset value,
    Array.size_setIfInBounds.trans hk⟩

end Vault

end VaultKernel
