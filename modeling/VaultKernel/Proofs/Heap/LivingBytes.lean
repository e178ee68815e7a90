import Mathlib.Algebra.BigOperators.Group.Finset.Basic
import Mathlib.Algebra.GroupWithZero.Nat
import Mathlib.Data.Finset.Range
import VaultKernel.Object
import VaultKernel.Proofs.Heap.Requests

/-!
# The bytes of living objects

The counter of living bytes is a word to which an allocation adds its bytes and from which a removal
takes them away. In every state it is the sum of the bytes of the living objects, and the sum is
within the limit (`Booked`). Under the greatest word as limit no request is too large, as a sum
beyond the words counts as the greatest of them; a request that the counter cannot take up then
stops the process instead of being refused (`aliveBytes_overflows`). The main statement is
`livingBytes_accounted`.
-/

namespace VaultKernel.Heap

variable {α : Type} {h h' : Heap α} {limits : HeapLimits} {live vacant : List Nat} {value : α}
  {size : UInt64} {immortal : Bool} {r : ObjectRef}

/-- The payload bytes of an object. -/
def bytesOf (h : Heap α) (r : ObjectRef) : Nat := ((h.header? r).map (·.size.toNat)).getD 0

/-- The payload bytes of the living objects together. -/
def livingBytes (h : Heap α) : Nat := (h.handles.map h.bytesOf).sum

/-! ## Sums over slots -/

/-- The payload bytes of what is in a slot. -/
def bytesAt (h : Heap α) (i : Nat) : Nat := ((h.entryAt? i).map (·.header.size.toNat)).getD 0

/-- The payload bytes of what is in the slots together. -/
def slotBytes (h : Heap α) : Nat := ∑ i ∈ Finset.range h.slots.size, h.bytesAt i

/-- An empty slot holds no bytes. -/
theorem bytesAt_eq_zero {i : Nat} (hi : h.entryAt? i = none) : h.bytesAt i = 0 := by
  rw [bytesAt, hi]
  rfl

/-- The bytes in the slots may be summed over any set of slots with the occupied ones among
them. -/
theorem sum_bytesAt {slots : Finset Nat} (hslots : ∀ i, (h.entryAt? i).isSome → i ∈ slots) :
    ∑ i ∈ slots, h.bytesAt i = h.slotBytes := by
  have hzero : ∀ {i : Nat} {slots : Finset Nat}, (∀ i, (h.entryAt? i).isSome → i ∈ slots) →
      i ∉ slots → h.bytesAt i = 0 := fun hslots hi =>
    bytesAt_eq_zero (Option.not_isSome_iff_eq_none.1 fun hsome => hi (hslots _ hsome))
  have hrange : ∀ i, (h.entryAt? i).isSome → i ∈ Finset.range h.slots.size := by
    intro i hi
    obtain ⟨e, he⟩ := Option.isSome_iff_exists.1 hi
    exact Finset.mem_range.2 (lt_size_of_entryAt? he)
  calc ∑ i ∈ slots, h.bytesAt i
      = ∑ i ∈ slots ∪ Finset.range h.slots.size, h.bytesAt i :=
        Finset.sum_subset Finset.subset_union_left fun i _ hi => hzero hslots hi
    _ = h.slotBytes :=
        (Finset.sum_subset Finset.subset_union_right fun i _ hi => hzero hrange hi).symm

/-- The bytes of the living objects are the bytes in the slots. -/
theorem Living.livingBytes_eq (hl : Living h live) : h.livingBytes = h.slotBytes := by
  have hbytes : ∀ i, h.bytesOf (h.handleAt i) = h.bytesAt i := by
    intro i
    rw [bytesOf, header?, entry?_handleAt, Option.map_map]
    rfl
  have hlive : ∀ i, (h.entryAt? i).isSome → i ∈ live.toFinset := by
    intro i hi
    exact List.mem_toFinset.2 ((hl.mem_iff i).2 hi)
  rw [livingBytes, hl.handles_eq, List.map_map, ← sum_bytesAt hlive,
    List.sum_toFinset _ hl.nodup]
  exact congrArg List.sum (List.map_congr_left fun i _ => hbytes i)

/-- A change of one slot changes the sum by what is in that slot. -/
theorem slotBytes_change {i : Nat} (hsame : ∀ j, j ≠ i → h'.bytesAt j = h.bytesAt j) :
    h'.slotBytes + h.bytesAt i = h.slotBytes + h'.bytesAt i := by
  obtain ⟨slots, hi, hbefore, hafter⟩ : ∃ slots : Finset Nat, i ∈ slots ∧
      ∑ j ∈ slots, h.bytesAt j = h.slotBytes ∧ ∑ j ∈ slots, h'.bytesAt j = h'.slotBytes := by
    refine ⟨Finset.range (h.slots.size + h'.slots.size + i + 1), Finset.mem_range.2 (by omega),
      sum_bytesAt fun j hj => ?_, sum_bytesAt fun j hj => ?_⟩
    all_goals
      obtain ⟨e, he⟩ := Option.isSome_iff_exists.1 hj
      have hlt := lt_size_of_entryAt? he
      exact Finset.mem_range.2 (by omega)
  have hrest : ∑ j ∈ slots.erase i, h'.bytesAt j = ∑ j ∈ slots.erase i, h.bytesAt j :=
    Finset.sum_congr rfl fun j hj => hsame j (Finset.ne_of_mem_erase hj)
  rw [← hbefore, ← hafter, ← Finset.add_sum_erase slots h.bytesAt hi,
    ← Finset.add_sum_erase slots h'.bytesAt hi, hrest]
  omega

/-- The bytes in the slots depend on the size of each entry only. -/
theorem slotBytes_congr (hsame : ∀ j, h'.bytesAt j = h.bytesAt j) : h'.slotBytes = h.slotBytes := by
  have hchange := slotBytes_change (i := 0) fun j _ => hsame j
  rw [hsame] at hchange
  omega

/-! ## What every change does to the bytes -/

/-- A change of an entry that leaves its size leaves the bytes of its slot. -/
theorem bytesAt_modifyAt (h : Heap α) (k i : Nat) {f : HeapEntry α → HeapEntry α}
    (hf : ∀ e, (f e).header.size = e.header.size) : (h.modifyAt k f).bytesAt i = h.bytesAt i := by
  rw [bytesAt, entryAt?_modifyAt]
  split
  · rw [Option.map_map, bytesAt]
    simp only [Function.comp_def, hf]
  · rfl

/-- A removal takes the bytes of its object away. -/
theorem slotBytes_remove {i : Nat} {e : HeapEntry α} (he : h.entryAt? i = some e) :
    (h.remove i).slotBytes + e.header.size.toNat = h.slotBytes := by
  have hentry := entryAt?_remove he
  have hsame : ∀ j, j ≠ i → (h.remove i).bytesAt j = h.bytesAt j := by
    intro j hj
    rw [bytesAt, hentry, if_neg hj.symm, Option.map_map]
    rfl
  have hgone : (h.remove i).bytesAt i = 0 := bytesAt_eq_zero (by rw [hentry, if_pos rfl])
  have hbytes : h.bytesAt i = e.header.size.toNat := by rw [bytesAt, he]; rfl
  have hchange := slotBytes_change hsame
  omega

/-- An insertion adds the bytes of its object. -/
theorem slotBytes_insert (ht : Threads h live vacant)
    (hinsert : h.insert value size immortal = .ok r h') :
    h'.slotBytes = h.slotBytes + size.toNat := by
  obtain ⟨taken, htake, _, rfl⟩ := insert_eq_ok hinsert
  obtain ⟨_, _, _, hindex, hnone, _⟩ := ht.takeSlot? htake
  have hentry (i : Nat) := entryAt?_link taken value size immortal hindex i
  have hsame : ∀ j, j ≠ r.index →
      ((taken.link r.index value size immortal).countAllocation size).bytesAt j = h.bytesAt j := by
    intro j hj
    change (((taken.link r.index value size immortal).entryAt? j).map _).getD 0 = _
    rw [hentry, if_neg hj.symm, bytesAt, ← entryAt?_takeSlot? htake]
    split
    · rw [Option.map_map]
      rfl
    · rfl
  have hnew : ((taken.link r.index value size immortal).countAllocation size).bytesAt r.index =
      size.toNat := by
    change (((taken.link r.index value size immortal).entryAt? r.index).map _).getD 0 = _
    rw [hentry, if_pos rfl]
    rfl
  have hold := bytesAt_eq_zero hnone
  have hchange := slotBytes_change hsame
  omega

/-! ## The invariant -/

/-- The counter of living bytes is the bytes in the slots, which stay within the limit. -/
structure Booked (limits : HeapLimits) (h : Heap α) : Prop where
  limits_eq : h.limits = limits
  aliveBytes_eq : h.stats.aliveBytes.toNat = h.slotBytes
  within : h.slotBytes ≤ limits.maxBytes.toNat
  slots_le : h.slots.size ≤ 2 ^ 32

/-- In an empty heap there are no bytes to count. -/
theorem Booked.empty (limits : HeapLimits) : Booked limits (.empty limits : Heap α) :=
  ⟨rfl, rfl, Nat.zero_le _, Nat.zero_le _⟩

/-- A change of an entry keeps the books if it leaves the size. -/
theorem Booked.modifyAt (hb : Booked limits h) (k : Nat) {f : HeapEntry α → HeapEntry α}
    (hf : ∀ e, (f e).header.size = e.header.size) : Booked limits (h.modifyAt k f) := by
  have hbytes := slotBytes_congr fun j => bytesAt_modifyAt h k j hf
  exact ⟨hb.limits_eq, by rw [hbytes]; exact hb.aliveBytes_eq, by rw [hbytes]; exact hb.within,
    by rw [size_modifyAt]; exact hb.slots_le⟩

/-- Rewriting a value keeps the books. -/
theorem Booked.modify (hb : Booked limits h) (r : ObjectRef) (f : α → α) :
    Booked limits (h.modify r f) := by
  unfold Heap.modify
  split
  · exact hb.modifyAt _ fun _ => rfl
  · exact hb

/-- Colouring keeps the books. -/
theorem Booked.setMark (hb : Booked limits h) (r : ObjectRef) (mark : Mark) :
    Booked limits (h.setMark r mark) := by
  unfold Heap.setMark
  split
  · exact hb.modifyAt _ fun _ => rfl
  · exact hb

/-- Taking an object out of the list of the living does not touch the limits. -/
theorem limits_unlink (h : Heap α) (prev next : Option Nat) :
    (h.unlink prev next).limits = h.limits := by
  cases prev <;> cases next <;> rfl

/-- A removal keeps the books. -/
theorem Booked.remove (hb : Booked limits h) (i : Nat) : Booked limits (h.remove i) := by
  cases he : h.entryAt? i with
  | none =>
      have hsame : h.remove i = h := by simp [Heap.remove, he]
      rwa [hsame]
  | some e =>
      have hbytes := slotBytes_remove he
      have hcounter : (h.remove i).stats.aliveBytes = h.stats.aliveBytes - e.header.size := by
        simp only [Heap.remove, he, countFree, stats_unlink, vacate]
      have hlimits : (h.remove i).limits = h.limits := by
        simp only [Heap.remove, he, countFree, limits_unlink, vacate]
      refine ⟨hlimits.trans hb.limits_eq, ?_, ?_, ?_⟩
      · have halive := hb.aliveBytes_eq
        have hword := h.stats.aliveBytes.toNat_lt
        rw [hcounter, UInt64.toNat_sub]
        omega
      · have hwithin := hb.within
        omega
      · rw [(remove_frame he i).2.2.1]
        exact hb.slots_le

/-- Taking a slot leaves the limits, and the slots within the numbers of 32 bits. -/
theorem takeSlot?_frame {index : Nat} {taken : Heap α}
    (htake : h.takeSlot? = some (index, taken)) (hslots : h.slots.size ≤ 2 ^ 32) :
    taken.limits = h.limits ∧ taken.slots.size ≤ 2 ^ 32 := by
  unfold takeSlot? at htake
  split at htake
  · cases htake
    exact ⟨rfl, by simpa using hslots⟩
  · split at htake
    · next hsize =>
        cases htake
        refine ⟨rfl, ?_⟩
        rw [Array.size_push]
        omega
    · cases htake

/-- Putting an object into the list of the living does not touch the limits. -/
theorem limits_link (h : Heap α) (index : Nat) (value : α) (size : UInt64) (immortal : Bool) :
    (h.link index value size immortal).limits = h.limits := by
  unfold link
  cases h.tail <;> rfl

/-- A request has room if, added up as a word that stays at the greatest one, it is within the
limit. -/
theorem room_of_insert (hinsert : h.insert value size immortal = .ok r h') :
    min (h.stats.aliveBytes.toNat + size.toNat) (2 ^ 64 - 1) ≤ h.limits.maxBytes.toNat := by
  unfold Heap.insert at hinsert
  split at hinsert
  · next hroom => exact of_decide_eq_true hroom
  · cases hinsert

/-- An insertion keeps the books. -/
theorem Booked.insert (hb : Booked limits h) (ht : Threads h live vacant)
    (hinsert : h.insert value size immortal = .ok r h') : Booked limits h' := by
  have hbytes := slotBytes_insert ht hinsert
  have hroom := room_of_insert hinsert
  have hcount := (canCount_iff.1 (canCount_of_insert hinsert)).1
  have hstats := stats_insert hinsert
  have halive := hb.aliveBytes_eq
  obtain ⟨taken, htake, _, rfl⟩ := insert_eq_ok hinsert
  obtain ⟨hlimits, hslots⟩ := takeSlot?_frame htake hb.slots_le
  refine ⟨?_, ?_, ?_, ?_⟩
  · exact (limits_link taken r.index value size immortal).trans (hlimits.trans hb.limits_eq)
  · rw [hstats, hbytes]
    show (h.stats.aliveBytes + size).toNat = _
    rw [UInt64.toNat_add]
    omega
  · -- the sum could be counted, so it was not cut off when it was compared with the limit
    rw [hb.limits_eq] at hroom
    omega
  · show (taken.link r.index value size immortal).slots.size ≤ _
    rwa [size_link]

/-! ## Bulk operations -/

/-- What colouring keeps, marking keeps. -/
theorem of_markFrom [Traceable α] {P : Heap α → Prop}
    (hmark : ∀ x r mark, P x → P (x.setMark r mark)) (hP : P h) (roots : List ObjectRef) :
    P (h.markFrom roots) := by
  have hshadeAll : ∀ (x : Heap α) (stack rs : List ObjectRef), P x →
      P (shadeAll (x, stack) rs).1 := by
    intro x stack rs hx
    refine List.foldlRecOn (motive := fun state : Heap α × List ObjectRef => P state.1) rs _ hx
      fun ⟨y, _⟩ hy r _ => ?_
    simp only [shade]
    split
    · exact hmark y r .gray hy
    · exact hy
  have hdrain : ∀ (fuel : Nat) (x : Heap α) (stack : List ObjectRef), P x →
      P (drain fuel x stack) := by
    intro fuel
    induction fuel with
    | zero => exact fun x stack hx => hx
    | succ fuel ih =>
        intro x stack hx
        cases stack with
        | nil => exact hx
        | cons r stack => exact ih _ _ (hmark _ r .black (hshadeAll x stack (x.childrenOf r) hx))
  exact hdrain _ _ _ (hshadeAll h [] (roots ++ h.immortals) hP)

/-- What colouring and removals keep, sweeping keeps. -/
theorem of_sweep {P : Heap α → Prop} (hmark : ∀ x r mark, P x → P (x.setMark r mark))
    (hremove : ∀ x i, P x → P (x.remove i)) (hP : P h) (rs : List ObjectRef) :
    P (h.sweep rs).2 := by
  refine List.foldlRecOn (motive := fun state : Nat × Heap α => P state.2) rs _ hP
    fun ⟨n, x⟩ hx r _ => ?_
  simp only [sweepOne]
  split
  · split
    · exact hremove x r.index hx
    · exact hmark x r .white hx
  · exact hx

/-- A collection keeps the books. -/
theorem Booked.collect [Traceable α] (hb : Booked limits h) (roots : List ObjectRef) :
    Booked limits (h.collect roots).2 := by
  have hmarked : Booked limits (h.markFrom roots) :=
    of_markFrom (fun _ r mark hx => hx.setMark r mark) hb roots
  have hswept : Booked limits ((h.markFrom roots).sweep h.handles).2 :=
    of_sweep (fun _ r mark hx => hx.setMark r mark) (fun _ i hx => hx.remove i) hmarked h.handles
  exact ⟨hswept.limits_eq, hswept.aliveBytes_eq, hswept.within, hswept.slots_le⟩

/-- Freeing whatever satisfies a test keeps the books. -/
theorem Booked.freeWhere (hb : Booked limits h) (p : α → Bool) :
    Booked limits (h.freeWhere p).2 :=
  List.foldlRecOn (motive := Booked limits) _ _ hb fun _ hx r _ => hx.remove r.1.index

/-- Every history keeps the invariant. -/
theorem History.booked [Traceable α] {events : List SlotEvent} (hh : History limits h events) :
    Booked limits h := by
  induction hh with
  | start => exact .empty limits
  | allocated value size immortal hh hinsert ih =>
      obtain ⟨live, vacant, hk⟩ := hh.kept
      exact ih.insert hk.tidy.toThreads hinsert
  | refused value size immortal _ hinsert ih => exact insert_eq_error hinsert ▸ ih
  | freed r _ hfree ih =>
      obtain ⟨_, rfl⟩ := free_eq_ok hfree
      exact ih.remove r.index
  | stale r _ hfree ih => exact free_eq_error hfree ▸ ih
  | freeWhere p _ ih => exact ih.freeWhere p
  | freeMortals _ ih => exact ih.freeWhere _
  | collect roots _ ih => exact ih.collect roots
  | modify r f _ ih => exact ih.modify r f

/-! ## Refusals -/

/-- Living and empty slots are all slots. -/
theorem Threads.length_add_length (ht : Threads h live vacant)
    (hdisjoint : ∀ i ∈ live, i ∉ vacant) :
    live.length + vacant.length = h.slots.size := by
  have hnodup : (live ++ vacant).Nodup :=
    List.nodup_append'.2 ⟨ht.living.nodup, ht.vacancies.nodup, hdisjoint⟩
  have hmem : ∀ i, i ∈ live ++ vacant ↔ i ∈ List.range h.slots.size := by
    intro i
    rw [List.mem_append, List.mem_range, ht.living.mem_iff]
    constructor
    · rintro (hi | hi)
      · obtain ⟨e, he⟩ := Option.isSome_iff_exists.1 hi
        exact lt_size_of_entryAt? he
      · exact (ht.vacancies.unoccupied i hi).1
    · intro hi
      cases he : h.entryAt? i with
      | none => exact Or.inr (ht.covers i hi he)
      | some e => exact Or.inl rfl
  have hperm := (List.perm_ext_iff_of_nodup hnodup List.nodup_range).2 hmem
  simpa using hperm.length_eq

/-- There is no slot for a new object exactly if all words of 32 bits are in use. -/
theorem takeSlot?_eq_none_iff {events : List SlotEvent} (hk : Kept h events live vacant)
    (hslots : h.slots.size ≤ 2 ^ 32) : h.takeSlot? = none ↔ h.handles.length = 2 ^ 32 := by
  have hlength := hk.tidy.toThreads.length_add_length hk.disjoint
  rw [hk.tidy.living.handles_eq, List.length_map]
  unfold Heap.takeSlot?
  rw [hk.tidy.vacancies.freeHead_eq]
  cases vacant with
  | nil =>
      simp only [List.head?_nil, List.length_nil] at hlength ⊢
      split
      · simp only [reduceCtorEq, false_iff]
        omega
      · simp only [true_iff]
        omega
  | cons first rest =>
      simp only [List.head?_cons, List.length_cons, reduceCtorEq, false_iff] at hlength ⊢
      omega

/-- A request is refused if it would exceed the limit, unless the limit is the greatest word. -/
theorem Booked.not_hasRoom_iff (hb : Booked limits h) (size : UInt64) :
    h.hasRoom size = false ↔
      limits.maxBytes.toNat < h.slotBytes + size.toNat ∧ limits.maxBytes.toNat < 2 ^ 64 - 1 := by
  have halive := hb.aliveBytes_eq
  have hmax := limits.maxBytes.toNat_lt
  rw [hasRoom, decide_eq_false_iff_not, hb.limits_eq]
  omega

/-- How the counter of living bytes and the answers to requests depend on the living objects. -/
structure Accounted (limits : HeapLimits) (h : Heap α) : Prop where
  aliveBytes_eq : h.stats.aliveBytes.toNat = h.livingBytes
  within : h.livingBytes ≤ limits.maxBytes.toNat
  /-- A request is refused if it exceeds a limit below the greatest, or if no slot is left. -/
  refused_iff : ∀ value size immortal,
    h.insert value size immortal =
        .error (.outOfMemory size h.stats.aliveBytes limits.maxBytes) h ↔
      (limits.maxBytes.toNat < h.livingBytes + size.toNat ∧ limits.maxBytes.toNat < 2 ^ 64 - 1) ∨
        h.handles.length = 2 ^ 32
  /-- A request that is not refused stops the process if a byte counter cannot take it up. -/
  stopped_iff : ∀ value size immortal,
    h.insert value size immortal = .error .overflow h ↔
      h.insert value size immortal ≠
          .error (.outOfMemory size h.stats.aliveBytes limits.maxBytes) h ∧
        (2 ^ 64 ≤ h.livingBytes + size.toNat ∨
          2 ^ 64 ≤ h.stats.bytesRequested.toNat + size.toNat)
  /-- Any other request is granted. -/
  granted : ∀ value size immortal,
    h.insert value size immortal ≠
        .error (.outOfMemory size h.stats.aliveBytes limits.maxBytes) h →
    h.insert value size immortal ≠ .error .overflow h →
      ∃ r h', h.insert value size immortal = .ok r h' ∧
        h'.livingBytes = h.livingBytes + size.toNat
  freed : ∀ r value h', h.free r = .ok value h' → h'.livingBytes + h.bytesOf r = h.livingBytes

/-- After every history the counter of living bytes is the sum of the bytes of the living objects,
and the sum is within the limit. A request is refused exactly if it would take the sum above a limit
below the greatest word or if there is no slot left. Of the others, those that a counter cannot take
up stop the process, and the rest are granted. -/
theorem livingBytes_accounted [Traceable α] {events : List SlotEvent}
    (hh : History limits h events) : Accounted limits h := by
  obtain ⟨live, vacant, hk⟩ := hh.kept
  have hb := hh.booked
  have hliving := hk.tidy.living.livingBytes_eq
  have hrefusal : ∀ size, h.refusal size = .outOfMemory size h.stats.aliveBytes limits.maxBytes :=
    fun size => by rw [refusal, hb.limits_eq]
  have hnot_grants : ∀ size, ¬ h.grants size ↔
      (limits.maxBytes.toNat < h.livingBytes + size.toNat ∧ limits.maxBytes.toNat < 2 ^ 64 - 1) ∨
        h.handles.length = 2 ^ 32 := by
    intro size
    rw [hliving, ← hb.not_hasRoom_iff size, ← takeSlot?_eq_none_iff hk hb.slots_le, grants,
      Bool.and_eq_true, not_and_or, Bool.not_eq_true, Option.not_isSome_iff_eq_none]
  have hrefused : ∀ value size immortal, h.insert value size immortal =
      .error (.outOfMemory size h.stats.aliveBytes limits.maxBytes) h ↔ ¬ h.grants size := by
    intro value size immortal
    rw [← hrefusal]
    refine ⟨fun hrefused hgranted => ?_,
      fun hgranted => insert_of_not_grants hgranted value immortal⟩
    by_cases hcount : h.canCount size
    · obtain ⟨_, _, hok⟩ := insert_of_grants hgranted hcount value immortal
      cases hok.symm.trans hrefused
    · cases (insert_of_not_canCount hgranted hcount value immortal).symm.trans hrefused
  have hstopped : ∀ value size immortal, h.insert value size immortal = .error .overflow h ↔
      h.grants size ∧ ¬ h.canCount size := by
    intro value size immortal
    refine ⟨fun hstop => ?_, fun hstops =>
      insert_of_not_canCount hstops.1 hstops.2 value immortal⟩
    by_cases hgranted : h.grants size
    · refine ⟨hgranted, fun hcount => ?_⟩
      obtain ⟨_, _, hok⟩ := insert_of_grants hgranted hcount value immortal
      cases hok.symm.trans hstop
    · cases (insert_of_not_grants hgranted value immortal).symm.trans hstop
  refine ⟨?_, ?_, fun value size immortal => ?_, fun value size immortal => ?_,
    fun value size immortal hnotrefused hnotstopped => ?_, fun r value h' hfree => ?_⟩
  · rw [hliving]
    exact hb.aliveBytes_eq
  · rw [hliving]
    exact hb.within
  · rw [hrefused, hnot_grants]
  · rw [hstopped, Ne, hrefused, not_not, canCount_iff, hliving, ← hb.aliveBytes_eq, not_and_or,
      Nat.not_lt, Nat.not_lt]
  · rw [Ne, hrefused, not_not] at hnotrefused
    have hcount : h.canCount size := by
      by_contra hcount
      exact hnotstopped ((hstopped value size immortal).2 ⟨hnotrefused, hcount⟩)
    obtain ⟨r, h', hinsert⟩ := insert_of_grants hnotrefused hcount value immortal
    refine ⟨r, h', hinsert, ?_⟩
    rw [(hk.allocate hinsert).tidy.living.livingBytes_eq, hliving]
    exact slotBytes_insert hk.tidy.toThreads hinsert
  · obtain ⟨hget, rfl⟩ := free_eq_ok hfree
    obtain ⟨e, he, _⟩ := Option.map_eq_some_iff.1 hget
    have hentry := (entry?_eq_some_iff.1 he).2
    have hlive := (hk.tidy.living.mem_iff r.index).2 (by rw [hentry]; rfl)
    have hbytes : h.bytesOf r = e.header.size.toNat := by rw [bytesOf, header?, he]; rfl
    rw [(hk.remove hlive).tidy.living.livingBytes_eq, hliving, hbytes]
    exact slotBytes_remove hentry

/-- Two objects of eight bytes fill a heap of sixteen. -/
theorem livingBytes_accounted_full : ∃ (h : Heap Object) (events : List SlotEvent),
    History { maxBytes := 16 } h events ∧ Accounted { maxBytes := 16 } h ∧ h.livingBytes = 16 ∧
      h.insert ⟨⟨0, 0⟩, #[]⟩ 8 false = .error (.outOfMemory 8 16 16) h := by
  have hstart : History { maxBytes := 16 } (Heap.empty { maxBytes := 16 } : Heap Object) [] :=
    .start
  have hfirst := hstart.allocated ⟨⟨0, 0⟩, #[]⟩ 8 false rfl
  have hsecond := hfirst.allocated ⟨⟨0, 0⟩, #[]⟩ 8 false rfl
  exact ⟨_, _, hsecond, livingBytes_accounted hsecond, by rfl, by rfl⟩

/-- Under the greatest word as limit, a request that takes the bytes above the limit is not refused:
the process stops. -/
theorem aliveBytes_overflows : ∃ (h : Heap Object) (events : List SlotEvent),
    History { maxBytes := 18446744073709551615 } h events ∧ h.livingBytes = 2 ^ 64 - 1 ∧
      h.insert ⟨⟨0, 0⟩, #[]⟩ 1 false = .error .overflow h := by
  have hstart : History { maxBytes := 18446744073709551615 }
    (Heap.empty { maxBytes := 18446744073709551615 } : Heap Object) [] := .start
  have hfirst := hstart.allocated ⟨⟨0, 0⟩, #[]⟩ 18446744073709551615 false rfl
  exact ⟨_, _, hfirst, by rfl, by rfl⟩

end VaultKernel.Heap
