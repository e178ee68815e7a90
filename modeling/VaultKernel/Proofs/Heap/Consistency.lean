import VaultKernel.Proofs.Handle.Log
import VaultKernel.Proofs.Heap.History
import VaultKernel.Object

/-!
# What holds of every heap

`history_consistent` says, without the invariant of the proofs, how the lists, marks and counters of
a heap look after any history, and `collect_keeps_reached` what a collection does at any point of
one.
-/

namespace VaultKernel.Heap

variable {α : Type}

/-- The slots that a walk visits that goes from slot to slot until there is none. -/
inductive Walk (step : Nat → Option Nat) : Option Nat → List Nat → Prop where
  | stop : Walk step none []
  | visit {i : Nat} {rest : List Nat} : Walk step (step i) rest → Walk step (some i) (i :: rest)

/-- The slot after a slot in its header. -/
def next? (h : Heap α) (i : Nat) : Option Nat := (h.entryAt? i).bind (·.header.next)

/-- The slot before a slot in its header. -/
def prev? (h : Heap α) (i : Nat) : Option Nat := (h.entryAt? i).bind (·.header.prev)

/-- How the lists, marks and counters of a heap fit together. -/
structure Consistent (h : Heap α) (events : List SlotEvent) (live vacant : List Nat) : Prop where
  /-- The walk from the head visits the occupied slots, each once, and ends at the tail. -/
  living_walk : Walk h.next? h.head live
  living_once : live.Nodup
  living_iff : ∀ i, i ∈ live ↔ (h.entryAt? i).isSome
  living_ends : h.tail = live.getLast?
  /-- Each header names the slot before it, and that one names it. -/
  inverse : ∀ i j, h.next? i = some j ↔ h.prev? j = some i
  /-- The walk from the first empty slot visits the empty slots, each once. -/
  vacant_walk : Walk h.following? h.freeHead vacant
  vacant_once : vacant.Nodup
  vacant_iff : ∀ i, i ∈ vacant ↔ i < h.slots.size ∧ h.entryAt? i = none
  /-- The occupied slots come in the order of allocation, the empty ones last vacated first. -/
  ordered : Ordered events live vacant
  white : ∀ i e, h.entryAt? i = some e → e.header.mark = .white
  aliveObjects_eq : h.stats.aliveObjects = h.slots.countP (·.entry.isSome)
  allocations_eq : h.stats.allocations = h.stats.frees + h.stats.aliveObjects
  /-- A refused allocation changes nothing. -/
  refused : ∀ value size immortal e h', h.insert value size immortal = .error e h' → h' = h

/-! ## Walks -/

/-- A list whose members lead to one another is what a walk from its first member visits. -/
theorem Walk.of_links {step : Nat → Option Nat} {after : List Nat} (before : List Nat)
    (hlinks : ∀ pre i post, before ++ after = pre ++ i :: post → step i = post.head?) :
    Walk step after.head? after := by
  induction after generalizing before with
  | nil => exact .stop
  | cons i rest ih =>
      refine .visit ?_
      rw [hlinks before i rest rfl]
      exact ih (before ++ [i]) (by simpa using hlinks)

/-- The header of a living slot names the one after it. -/
theorem Living.next?_eq {h : Heap α} {live before after : List Nat} {i : Nat} (hl : Living h live)
    (hlive : live = before ++ i :: after) : h.next? i = after.head? := by
  obtain ⟨e, he, _, hnext⟩ := hl.links before i after hlive
  rw [next?, he, Option.bind_some, hnext]

/-- The header of a living slot names the one before it. -/
theorem Living.prev?_eq {h : Heap α} {live before after : List Nat} {i : Nat} (hl : Living h live)
    (hlive : live = before ++ i :: after) : h.prev? i = before.getLast? := by
  obtain ⟨e, he, hprev, _⟩ := hl.links before i after hlive
  rw [prev?, he, Option.bind_some, hprev]

/-- An occupied slot is somewhere in the list of the living. -/
theorem Living.split {h : Heap α} {live : List Nat} {i : Nat} {e : HeapEntry α} (hl : Living h live)
    (he : h.entryAt? i = some e) : ∃ before after, live = before ++ i :: after :=
  List.append_of_mem ((hl.mem_iff i).2 (by rw [he]; rfl))

/-- A slot follows another one exactly if that one precedes it. -/
theorem Living.next?_eq_iff {h : Heap α} {live : List Nat} (hl : Living h live) (i j : Nat) :
    h.next? i = some j ↔ h.prev? j = some i := by
  constructor
  · intro hnext
    obtain ⟨e, he, _⟩ := Option.bind_eq_some_iff.1 hnext
    obtain ⟨before, after, hlive⟩ := hl.split he
    rw [hl.next?_eq hlive] at hnext
    obtain ⟨rest, rfl⟩ := List.head?_eq_some_iff.1 hnext
    have hlive' : live = (before ++ [i]) ++ j :: rest := by simp [hlive]
    rw [hl.prev?_eq hlive', List.getLast?_concat]
  · intro hprev
    obtain ⟨e, he, _⟩ := Option.bind_eq_some_iff.1 hprev
    obtain ⟨before, after, hlive⟩ := hl.split he
    rw [hl.prev?_eq hlive] at hprev
    obtain ⟨front, rfl⟩ := List.getLast?_eq_some_iff.1 hprev
    have hlive' : live = front ++ i :: j :: after := by simp [hlive]
    rw [hl.next?_eq hlive', List.head?_cons]

/-- There are as many living slots as occupied ones. -/
theorem Living.length_eq {h : Heap α} {live : List Nat} (hl : Living h live) :
    live.length = h.slots.countP (·.entry.isSome) := by
  refine length_eq_countP hl.nodup fun i => ?_
  have hentry : h.slots[i]?.any (·.entry.isSome) = (h.entryAt? i).isSome := by
    rw [entryAt?]
    cases h.slots[i]? <;> rfl
  rw [hl.mem_iff, hentry]

/-! ## Every history -/

variable [Traceable α]

/-- After every history the lists, marks and counters fit together. -/
theorem history_consistent {limits : HeapLimits} {h : Heap α} {events : List SlotEvent}
    (hh : History limits h events) : ∃ live vacant, Consistent h events live vacant := by
  obtain ⟨live, vacant, hk⟩ := hh.kept
  have hl := hk.tidy.living
  have hv := hk.tidy.vacancies
  have hlive : Walk h.next? live.head? live :=
    Walk.of_links [] fun pre i post hsplit => hl.next?_eq hsplit
  have hvacant : Walk h.following? vacant.head? vacant := Walk.of_links [] hv.links
  refine ⟨live, vacant, ?_⟩
  exact {
    living_walk := hl.head_eq ▸ hlive
    living_once := hl.nodup
    living_iff := hl.mem_iff
    living_ends := hl.tail_eq
    inverse := hl.next?_eq_iff
    vacant_walk := hv.freeHead_eq ▸ hvacant
    vacant_once := hv.nodup
    vacant_iff := fun i => ⟨hv.unoccupied i, fun hi => hk.tidy.covers i hi.1 hi.2⟩
    ordered := hk.ordered
    white := fun i e he => hk.white (h.handleAt i) _ (by rw [mark?_eq, entry?_handleAt, he]; rfl)
    aliveObjects_eq := hk.tidy.aliveObjects_eq.trans hl.length_eq
    allocations_eq := by rw [hk.tidy.allocations_eq, hk.tidy.aliveObjects_eq]
    refused := fun _ _ _ _ _ hinsert => insert_eq_error hinsert }

/-- A heap that took, vacated and took its first slot again. -/
theorem history_consistent_reuse : ∃ (h : Heap Object) (live vacant : List Nat),
    History {} h [.allocated 0, .removed 0, .allocated 1, .allocated 0] ∧
      Consistent h [.allocated 0, .removed 0, .allocated 1, .allocated 0] live vacant ∧
      h.occupied = [1, 0] := by
  have hstart : History {} (Heap.empty {} : Heap Object) [] := .start
  have hfirst := hstart.allocated ⟨⟨0, 0⟩, #[]⟩ 8 false rfl
  have hsecond := hfirst.allocated ⟨⟨0, 0⟩, #[]⟩ 8 false rfl
  have hfreed := hsecond.freed ⟨0, 0⟩ rfl
  have hthird := hfreed.allocated ⟨⟨0, 0⟩, #[]⟩ 8 false rfl
  obtain ⟨live, vacant, hconsistent⟩ := history_consistent hthird
  exact ⟨_, live, vacant, hthird, hconsistent, by rfl⟩

/-! ## Collections at any point of a history -/

/-- What a collection with the given roots makes of a heap. -/
structure Collected (h : Heap α) (roots : List ObjectRef) (reclaimed : Nat) (h' : Heap α) :
    Prop where
  /-- Exactly what can be reached stays, with its handle and its value. -/
  survives_iff : ∀ r, h.contains r →
    ((h'.contains r ∧ h'.get? r = h.get? r) ↔ Reached h roots r)
  /-- Nothing else is alive. -/
  removes : ∀ r, ¬ Reached h roots r → ¬ h'.contains r
  /-- The handles before the collection list each living object once. -/
  listed_iff : ∀ r, r ∈ h.handles ↔ h.contains r
  listed_once : h.handles.Nodup
  reclaimed_eq : reclaimed = h.handles.countP fun r => !h'.contains r
  lastReclaimed_eq : h'.stats.lastReclaimed = reclaimed
  handles_eq : h'.handles = h.handles.filter h'.contains
  white : ∀ r mark, h'.mark? r = some mark → mark = .white

/-- The slots of garbage are those of the objects that do not survive. -/
theorem length_garbageOf {h : Heap α} {live vacant : List Nat} (ht : Tidy h live vacant)
    (hwhite : AllWhite h) (roots : List ObjectRef) {h' : Heap α}
    (halive : ∀ r, h'.contains r ↔ Reached h roots r) :
    (h.garbageOf roots).length = h.handles.countP fun r => !h'.contains r := by
  rw [garbageOf, List.length_map, List.countP_eq_length_filter]
  congr 1
  apply List.filter_congr
  intro r hr
  have hlive := (ht.living.mem_handles_iff r).1 hr
  rw [Bool.eq_iff_iff, isGarbage_markFrom ht hwhite roots hlive, ← halive]
  simp

/-- A collection keeps what can be reached from its roots and the immortal objects, in order, and
removes everything else. -/
theorem collect_keeps_reached {limits : HeapLimits} {h : Heap α} {events : List SlotEvent}
    (hh : History limits h events) (roots : List ObjectRef) :
    Collected h roots (h.collect roots).1 (h.collect roots).2 := by
  obtain ⟨live, vacant, hk⟩ := hh.kept
  have hl := hk.tidy.living
  obtain ⟨hcount, htidy, hreached, hgone⟩ := collect_spec hk.tidy hk.white roots
  have halive : ∀ r, (h.collect roots).2.contains r ↔ Reached h roots r := by
    intro r
    by_cases hr : Reached h roots r
    · rw [contains_iff_bare?, hreached r hr, ← contains_iff_bare?]
      exact iff_of_true hr.contains hr
    · rw [contains_iff_bare?, hgone r hr]
      simpa using hr
  obtain ⟨_, _, hk'⟩ := hk.collect roots
  exact {
    survives_iff := fun r _ => by
      rw [halive r]
      exact ⟨fun hr => hr.1, fun hr => ⟨hr, get?_eq_of_bare? (hreached r hr)⟩⟩
    removes := fun r hr => (halive r).not.2 hr
    listed_iff := hl.mem_handles_iff
    listed_once := hl.nodup_indices.of_map _
    reclaimed_eq := hcount.trans (length_garbageOf hk.tidy hk.white roots halive)
    lastReclaimed_eq := rfl
    handles_eq := handles_filter hl htidy.living fun r hr => ((halive r).1 hr).contains
    white := hk'.white }

/-- Of three objects, the root and what it refers to survive; a stale root does no harm. -/
theorem collect_keeps_reached_root : ∃ h : Heap Object,
    History {} h [.allocated 2, .allocated 1, .allocated 0] ∧
      Collected h [⟨2, 0⟩, ⟨1, 7⟩] 1 (h.collect [⟨2, 0⟩, ⟨1, 7⟩]).2 ∧
      (h.collect [⟨2, 0⟩, ⟨1, 7⟩]).2.handles = [⟨0, 0⟩, ⟨2, 0⟩] := by
  have hstart : History {} (Heap.empty {} : Heap Object) [] := .start
  have hfirst := hstart.allocated ⟨⟨0, 0⟩, #[]⟩ 8 false rfl
  have hsecond := hfirst.allocated ⟨⟨0, 0⟩, #[]⟩ 8 false rfl
  have hthird := hsecond.allocated ⟨⟨0, 0⟩, #[.object ⟨0, 0⟩]⟩ 8 false rfl
  exact ⟨_, hthird, collect_keeps_reached hthird _, by rfl⟩

end VaultKernel.Heap
