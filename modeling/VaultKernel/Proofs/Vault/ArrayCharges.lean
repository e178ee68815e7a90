import Mathlib.Algebra.Group.Nat.Defs
import VaultKernel.Proofs.Vault.Arrays

/-!
# The charge of an array

An array is charged eight bytes for each of its five slots and each of its elements. From
`2 ^ 61 - 5` elements on these bytes are no word any more, and the process stops before the heap is
asked. Below, the charge is exact, and an array that does not fit is refused. The main statement is
`newArray_charge`.
-/

namespace VaultKernel.Vault

open Heap

variable {v w : Vault} {a : ObjectRef} {element : ClassRef} {c : Class} {n : UInt64}

/-- Where the sum of the living bytes and the request is a word, the heap has room for no more than
the limit. -/
theorem not_grants_of_exceeds {h : Heap Object} {size : UInt64}
    (hlimit : h.limits.maxBytes.toNat < 2 ^ 64 - 1)
    (hexceeds : h.limits.maxBytes.toNat < h.stats.aliveBytes.toNat + size.toNat) :
    ¬ h.grants size := by
  intro hgrants
  obtain ⟨hroom, _⟩ := (Bool.and_eq_true _ _).mp hgrants
  have hroom := of_decide_eq_true hroom
  omega

/-- What is counted for an array that was made. -/
structure Charged (v : Vault) (n : UInt64) (c : Class) (a : ObjectRef) (w : Vault) : Prop where
  exact_charge : (arrayCharge n).toNat = 8 * (5 + n.toNat)
  allocates : v.Allocates (arrayObject (List.replicate n.toNat .null) n c.token) (arrayCharge n) a w
  alive : w.heap.stats.aliveBytes.toNat =
    v.relieved.heap.stats.aliveBytes.toNat + 8 * (5 + n.toNat)
  requested : w.heap.stats.bytesRequested.toNat =
    v.relieved.heap.stats.bytesRequested.toNat + 8 * (5 + n.toNat)

/-- An array that was made is charged for. -/
theorem charged_of_newArray (hv : v.Reachable) (hopen : v.disposed = none)
    (hc : v.class? element = some c) (h : Run.newArray element n.toNat v = .ok a w) :
    v.Charged n c a w := by
  obtain ⟨hfits, halloc⟩ := newArray_eq_ok hv hopen hc h
  have hcharge := toNat_arrayCharge hfits
  obtain ⟨halive, hrequested⟩ := canCount_iff.1 halloc.counted
  rw [hcharge] at halive hrequested
  refine ⟨hcharge, halloc, ?_, ?_⟩
  · rw [halloc.stats, countAllocation, UInt64.toNat_add, hcharge, Nat.mod_eq_of_lt halive]
  · rw [halloc.stats, countAllocation, UInt64.toNat_add, hcharge, Nat.mod_eq_of_lt hrequested]

/-- The bytes of a new array are eight for each of its slots and elements. From `2 ^ 61 - 5`
elements on they are no word, and the process stops while the vault is as it was. Below, the heap is
asked for exactly these bytes after the collection that may be due. If it refuses them, the call
fails and nothing is allocated; so it is if they take the living bytes above the limit, unless there
is no limit but that of words. If it grants them, they are counted and there is the array, or the
process stops because a counter or a vector has no room for so many. No array that is made is
charged less. -/
theorem newArray_charge (hv : v.Reachable) (hopen : v.disposed = none)
    (hc : v.class? element = some c) (n : UInt64) :
    Run.collectIfDue v = .ok () v.relieved ∧
      (∀ a w, Run.newArray element n.toNat v = .ok a w → v.Charged n c a w) ∧
      (2 ^ 61 - 5 ≤ n.toNat → Run.newArray element n.toNat v = .error .overflow v) ∧
      (n.toNat < 2 ^ 61 - 5 → (arrayCharge n).toNat = 8 * (5 + n.toNat) ∧
        (¬ v.relieved.heap.grants (arrayCharge n) → Run.newArray element n.toNat v =
          .error (.fatal (.outOfMemory (arrayCharge n) v.relieved.heap.stats.aliveBytes
            v.relieved.heap.limits.maxBytes)) v.relieved) ∧
        (v.relieved.heap.limits.maxBytes.toNat < 2 ^ 64 - 1 →
          v.relieved.heap.limits.maxBytes.toNat <
            v.relieved.heap.stats.aliveBytes.toNat + 8 * (5 + n.toNat) →
          ¬ v.relieved.heap.grants (arrayCharge n)) ∧
        (v.relieved.heap.grants (arrayCharge n) →
          if v.relieved.heap.canCount (arrayCharge n) ∧ n.toNat * elementSize ≤ vectorLimit
          then ∃ a w, Run.newArray element n.toNat v = .ok a w
          else ∃ w, Run.newArray element n.toNat v = .error .overflow w)) := by
  refine ⟨collectIfDue_eq v, fun a w => charged_of_newArray hv hopen hc,
    fun hmany => newArray_overflow hv hopen hc (by omega), fun hfew => ?_⟩
  have hfits : 8 * (5 + n.toNat) < 18446744073709551616 := by omega
  have hcharge := toNat_arrayCharge hfits
  refine ⟨hcharge, fun hrefused => ?_, fun hlimit hexceeds => ?_, fun hgrants => ?_⟩
  · rcases newArray_cases hv hopen hc hfits with ⟨_, _, _, _, halloc⟩ | ⟨_, _, _, halloc, _⟩ |
      ⟨e, hdeclined, hrun⟩
    · exact absurd halloc.granted hrefused
    · exact absurd halloc.granted hrefused
    · cases hdeclined with
      | short => exact hrun
      | stopped hgrants => exact absurd hgrants hrefused
  · refine not_grants_of_exceeds hlimit ?_
    rwa [hcharge]
  · rcases newArray_cases hv hopen hc hfits with ⟨a, w, hrun, hroom, halloc⟩ |
      ⟨_, _, w, _, hlarge, hrun⟩ | ⟨e, hdeclined, hrun⟩
    · rw [if_pos ⟨halloc.counted, hroom⟩]
      exact ⟨a, w, hrun⟩
    · rw [if_neg fun hboth => Nat.not_lt.2 hboth.2 hlarge]
      exact ⟨w, hrun⟩
    · cases hdeclined with
      | short hrefused => exact absurd hgrants hrefused
      | stopped _ huncounted =>
          rw [if_neg fun hboth => huncounted hboth.1]
          exact ⟨_, hrun⟩

/-- A vault with a limit of 64 bytes grants an array of three elements, for which it has to collect
another one, and no array of four. -/
theorem newArray_charge_limited : ∃ v a w, v.Reachable ∧ v.heap.stats.aliveBytes = 64 ∧
    Run.newArray CoreType.int32.ref 3 v = .ok a w ∧ w.heap.stats.aliveBytes.toNat = 64 ∧
    Run.newArray CoreType.int32.ref 4 v =
      .error (.fatal (.outOfMemory 72 0 64)) v.relieved := by
  have hrun : (create { heap := { maxBytes := 64, threshold := 40 } } {}).toOption.any fun v₀ =>
      let v := (Operation.newArray CoreType.int32.ref 3).after v₀
      v.disposed.isNone && (v.class? CoreType.int32.ref).isSome && v.heap.stats.aliveBytes = 64 &&
        v.relieved.heap.stats.aliveBytes = 0 && v.relieved.heap.limits.maxBytes = 64 &&
        v.relieved.heap.grants (arrayCharge 3) && v.relieved.heap.canCount (arrayCharge 3) := by
    decide +kernel
  obtain ⟨v₀, hcreated, hrun⟩ := (Option.any_eq_true _ _).1 hrun
  simp only [Bool.and_eq_true, decide_eq_true_eq, Option.isNone_iff_eq_none] at hrun
  obtain ⟨⟨⟨⟨⟨⟨hopen, hclass⟩, halive⟩, hrelieved⟩, hmax⟩, hgrants⟩, hcount⟩ := hrun
  obtain ⟨c, hc⟩ := Option.isSome_iff_exists.1 hclass
  have hv : Reachable _ := ⟨_, _, v₀, toOption_eq_some.1 hcreated, .operate
    (.newArray CoreType.int32.ref 3) (.refl v₀)⟩
  generalize (Operation.newArray CoreType.int32.ref 3).after v₀ = v at *
  obtain ⟨_, hcharged, _, hsmall⟩ := newArray_charge hv hopen hc 3
  obtain ⟨_, _, _, hlarge⟩ := newArray_charge hv hopen hc 4
  obtain ⟨_, _, _, hmade⟩ := hsmall (by decide)
  have hmade := hmade hgrants
  rw [if_pos ⟨hcount, by decide⟩] at hmade
  obtain ⟨a, w, hrun⟩ := hmade
  obtain ⟨_, hrefused, hexceeds, _⟩ := hlarge (by decide)
  have hshort := hrefused (hexceeds (by simp [hmax]) (by simp [hmax, hrelieved]))
  rw [hrelieved, hmax] at hshort
  refine ⟨v, a, w, hv, halive, hrun, ?_, hshort⟩
  rw [(hcharged a w hrun).alive, hrelieved]
  rfl

/-- With a limit of 30 bytes, a request for an array of `2 ^ 61` elements does not fail for lack of
memory but stops the process. -/
theorem newArray_stops : ∃ v c, v.Reachable ∧ v.disposed = none ∧
    v.class? CoreType.int32.ref = some c ∧ v.relieved.heap.limits.maxBytes = 30 ∧
    30 < v.relieved.heap.stats.aliveBytes.toNat + 8 * (5 + 2 ^ 61) ∧
    Run.newArray CoreType.int32.ref (2 ^ 61) v = .error .overflow v := by
  have hrun : (create { heap := { maxBytes := 30 } } {}).toOption.any fun v =>
      v.disposed.isNone && (v.class? CoreType.int32.ref).isSome &&
        v.relieved.heap.limits.maxBytes = 30 := by
    decide +kernel
  obtain ⟨v, hcreated, hrun⟩ := (Option.any_eq_true _ _).1 hrun
  simp only [Bool.and_eq_true, decide_eq_true_eq, Option.isNone_iff_eq_none] at hrun
  obtain ⟨⟨hopen, hclass⟩, hmax⟩ := hrun
  obtain ⟨c, hc⟩ := Option.isSome_iff_exists.1 hclass
  have hv : v.Reachable := ⟨_, _, v, toOption_eq_some.1 hcreated, .refl v⟩
  have hsize : (2305843009213693952 : UInt64).toNat = 2 ^ 61 := by decide
  have hstop := newArray_overflow (n := 2305843009213693952) hv hopen hc (by decide)
  rw [hsize] at hstop
  exact ⟨v, c, hv, hopen, hc, hmax, by omega, hstop⟩

end VaultKernel.Vault
