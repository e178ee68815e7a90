import Mathlib.Data.List.Nodup
import VaultKernel.Heap.Collect

/-!
# What heap operations do to slots

A slot is seen through its entry, its generation and its successor among the empty slots. For each
update there is one lemma a view. Links apart, an entry is changed by no operation but a colouring
and a change of its value; `bare?` is the view of an object that forgets the links.
-/

namespace VaultKernel

/-- An entry without its links. -/
def HeapEntry.bare {α : Type} (e : HeapEntry α) : HeapEntry α :=
  { e with header := { e.header with prev := none, next := none } }

/-- An entry in another colour. -/
def HeapEntry.colored {α : Type} (mark : Mark) (e : HeapEntry α) : HeapEntry α :=
  { e with header := { e.header with mark } }

@[simp]
theorem HeapEntry.value_bare {α : Type} (e : HeapEntry α) : e.bare.value = e.value := rfl

@[simp]
theorem HeapEntry.immortal_bare {α : Type} (e : HeapEntry α) :
    e.bare.header.immortal = e.header.immortal := rfl

namespace Heap

variable {α : Type}

/-- The generation of a slot. -/
def generation? (h : Heap α) (i : Nat) : Option UInt32 := h.slots[i]?.map (·.generation)

/-- The successor of a slot among the empty ones. -/
def following? (h : Heap α) (i : Nat) : Option Nat := h.slots[i]?.bind (·.nextFree)

/-- The object behind a handle without its links. -/
def bare? (h : Heap α) (r : ObjectRef) : Option (HeapEntry α) := (h.entry? r).map HeapEntry.bare

/-- What is in a slot is its entry, if there is such a slot. -/
theorem entryAt?_eq (h : Heap α) (i : Nat) : h.entryAt? i = h.slots[i]?.bind (·.entry) := rfl

/-- Only the slots of the heap are occupied. -/
theorem lt_size_of_entryAt? {h : Heap α} {i : Nat} {e : HeapEntry α}
    (he : h.entryAt? i = some e) : i < h.slots.size := by
  rw [entryAt?_eq, Option.bind_eq_some_iff] at he
  obtain ⟨s, hs, _⟩ := he
  exact (Array.getElem?_eq_some_iff.1 hs).1

/-- A handle leads to what is in its slot if it has the generation of the slot. -/
theorem entry?_eq (h : Heap α) (r : ObjectRef) :
    h.entry? r =
      if h.generation? r.index = some r.generation then h.entryAt? r.index else none := by
  unfold entry? generation? entryAt?
  cases h.slots[r.index]? with
  | none => rfl
  | some s => simp

/-- What it takes for a handle to denote an entry: the slot's generation and its contents. -/
theorem entry?_eq_some_iff {h : Heap α} {r : ObjectRef} {e : HeapEntry α} :
    h.entry? r = some e ↔
      h.generation? r.index = some r.generation ∧ h.entryAt? r.index = some e := by
  rw [entry?_eq]
  split <;> simp_all

/-- The handle of a slot has the index of the slot. -/
@[simp]
theorem index_handleAt (h : Heap α) (i : Nat) : (h.handleAt i).index = i := rfl

/-- The handle of what is in a slot leads there. -/
theorem entry?_handleAt (h : Heap α) (i : Nat) : h.entry? (h.handleAt i) = h.entryAt? i := by
  unfold entry? handleAt entryAt?
  cases h.slots[i]? with
  | none => rfl
  | some s => simp

/-- A living object has the handle of its slot. -/
theorem handleAt_eq_of_entry {h : Heap α} {r : ObjectRef} {e : HeapEntry α}
    (he : h.entry? r = some e) : h.handleAt r.index = r := by
  obtain ⟨hg, _⟩ := entry?_eq_some_iff.1 he
  unfold handleAt
  rw [← generation?, hg]
  rfl

/-- The value behind a handle can be read off an object without its links. -/
theorem get?_eq_map_bare? (h : Heap α) (r : ObjectRef) :
    h.get? r = (h.bare? r).map (·.value) := by
  rw [get?, bare?, Option.map_map]
  rfl

/-- The value of an object is seen without its links. -/
theorem get?_eq_of_bare? {h h' : Heap α} {r : ObjectRef} (hbare : h'.bare? r = h.bare? r) :
    h'.get? r = h.get? r := by
  rw [get?_eq_map_bare?, get?_eq_map_bare?, hbare]

/-! ## Changing an entry -/

/-- A change of one entry is seen in its slot only. -/
@[simp]
theorem entryAt?_modifyAt (h : Heap α) (k i : Nat) (f : HeapEntry α → HeapEntry α) :
    (h.modifyAt k f).entryAt? i = if k = i then (h.entryAt? i).map f else h.entryAt? i := by
  simp only [entryAt?_eq, modifyAt, Array.getElem?_modify]
  split
  · cases h.slots[i]? <;> rfl
  · rfl

/-- No change of an entry turns a generation. -/
@[simp]
theorem generation?_modifyAt (h : Heap α) (k i : Nat) (f : HeapEntry α → HeapEntry α) :
    (h.modifyAt k f).generation? i = h.generation? i := by
  simp only [generation?, modifyAt, Array.getElem?_modify]
  split
  · cases h.slots[i]? <;> rfl
  · rfl

/-- No change of an entry reaches the list of the empty slots. -/
@[simp]
theorem following?_modifyAt (h : Heap α) (k i : Nat) (f : HeapEntry α → HeapEntry α) :
    (h.modifyAt k f).following? i = h.following? i := by
  simp only [following?, modifyAt, Array.getElem?_modify]
  split
  · cases h.slots[i]? <;> rfl
  · rfl

@[simp]
theorem size_modifyAt (h : Heap α) (k : Nat) (f : HeapEntry α → HeapEntry α) :
    (h.modifyAt k f).slots.size = h.slots.size := by
  simp [modifyAt]

@[simp]
theorem head_modifyAt (h : Heap α) (k : Nat) (f : HeapEntry α → HeapEntry α) :
    (h.modifyAt k f).head = h.head := rfl

@[simp]
theorem tail_modifyAt (h : Heap α) (k : Nat) (f : HeapEntry α → HeapEntry α) :
    (h.modifyAt k f).tail = h.tail := rfl

@[simp]
theorem freeHead_modifyAt (h : Heap α) (k : Nat) (f : HeapEntry α → HeapEntry α) :
    (h.modifyAt k f).freeHead = h.freeHead := rfl

@[simp]
theorem stats_modifyAt (h : Heap α) (k : Nat) (f : HeapEntry α → HeapEntry α) :
    (h.modifyAt k f).stats = h.stats := rfl

/-- A change of the entry behind a living handle is seen through that handle alone. -/
theorem entry?_modifyAt (h : Heap α) {r : ObjectRef} (hr : h.contains r) (q : ObjectRef)
    (f : HeapEntry α → HeapEntry α) :
    entry? (h.modifyAt r.index f) q = if q = r then (h.entry? q).map f else h.entry? q := by
  obtain ⟨e, he⟩ := Option.isSome_iff_exists.1 hr
  obtain ⟨hg, _⟩ := entry?_eq_some_iff.1 he
  simp only [entry?_eq, generation?_modifyAt, entryAt?_modifyAt]
  by_cases hi : r.index = q.index
  · by_cases hq : h.generation? q.index = some q.generation
    · have hqr : q = r := by
        rw [hi, hq] at hg
        cases q
        cases r
        simp_all
      simp [hqr, hg]
    · have hqr : q ≠ r := fun heq => hq (heq ▸ hg)
      simp [hq, hqr]
  · have hqr : q ≠ r := fun heq => hi (by rw [heq])
    simp [hi, hqr]

/-- A change of a value is seen through its handle alone. -/
theorem bare?_modify (h : Heap α) (r q : ObjectRef) (f : α → α) :
    (h.modify r f).bare? q =
      if q = r then (h.bare? q).map fun e => { e with value := f e.value } else h.bare? q := by
  unfold modify
  split
  · next hr =>
      simp only [bare?, entry?_modifyAt h hr]
      split
      · rw [Option.map_map, Option.map_map]
        rfl
      · rfl
  · next hr =>
      split
      · next heq =>
          have hnone : h.entry? r = none := by simpa [contains] using hr
          rw [heq, bare?, hnone]
          rfl
      · rfl

/-- What every handle denotes after a value was rewritten. -/
theorem get?_modify (h : Heap α) (r q : ObjectRef) (f : α → α) :
    (h.modify r f).get? q = if q = r then (h.get? q).map f else h.get? q := by
  rw [get?_eq_map_bare?, bare?_modify, get?_eq_map_bare?]
  split
  · rw [Option.map_map, Option.map_map]
    rfl
  · rfl

/-- Colouring a living object changes its entry. -/
theorem setMark_eq_modifyAt {h : Heap α} {r : ObjectRef} (hr : h.contains r) (mark : Mark) :
    h.setMark r mark = h.modifyAt r.index (HeapEntry.colored mark) := by
  rw [setMark, if_pos hr]
  rfl

/-- Colouring behind a stale handle does nothing. -/
theorem setMark_of_not_contains {h : Heap α} {r : ObjectRef} (hr : ¬ h.contains r) (mark : Mark) :
    h.setMark r mark = h := if_neg hr

/-- Colouring an object is seen through its handle alone. -/
theorem entry?_setMark (h : Heap α) (r q : ObjectRef) (mark : Mark) :
    entry? (h.setMark r mark) q =
      if q = r then (h.entry? q).map (HeapEntry.colored mark) else h.entry? q := by
  by_cases hr : h.contains r
  · rw [setMark_eq_modifyAt hr, entry?_modifyAt h hr]
  · rw [setMark_of_not_contains hr]
    split
    · next heq =>
        have hnone : h.entry? r = none := by simpa [contains] using hr
        rw [heq, hnone]
        rfl
    · rfl

/-- What every object is, links apart, after one of them was coloured. -/
theorem bare?_setMark (h : Heap α) (r q : ObjectRef) (mark : Mark) :
    (h.setMark r mark).bare? q =
      if q = r then (h.bare? q).map (HeapEntry.colored mark) else h.bare? q := by
  simp only [bare?, entry?_setMark]
  split
  · rw [Option.map_map, Option.map_map]
    rfl
  · rfl

end Heap

end VaultKernel
