import VaultKernel.Proofs.Arena.Slots
import VaultKernel.Proofs.Handle.Log

/-!
# Handles of an arena

An arena is used in any way and a log kept of the handles that it returns and removes. The owner of
an entry is logged with its value. As long as there are at most 2 ^ 32 slots and none is vacated as
many times, the log tells what every handle leads to (`Logged.tracked`). Entries are removed one by
one or with their owner; either way a slot is `Vacated` at a time.
-/

namespace VaultKernel.Arena

open HandleLog

variable {α : Type}

/-- The log tells the generations and the entries of the arena. -/
def TrackedBy (a : Arena α) (log : HandleLog (Nat × α)) : Prop := log.Tracks a.generation? a.entry?

/-! ## Removal of one entry -/

/-- A slot was emptied and everything else is as it was. -/
structure Vacated (a : Arena α) (i : Nat) (a' : Arena α) : Prop where
  entries : ∀ j, a'.entryAt? j = if j = i then none else a.entryAt? j
  generations : ∀ j, a'.generation? j =
    if j = i then (a.generation? j).map (· + 1) else a.generation? j

/-- A vacated slot has no owner, and the other slots keep theirs. -/
theorem Vacated.ownerAt?_eq {a a' : Arena α} {i : Nat} (hv : Vacated a i a') (j : Nat) :
    a'.ownerAt? j = if j = i then none else a.ownerAt? j := by
  rw [ownerAt?, hv.entries]
  split <;> rfl

/-- No handle of a vacated slot denotes anything, and the others denote what they did. -/
theorem Vacated.entry?_eq {a a' : Arena α} {i : Nat} (hv : Vacated a i a') (h : Handle) :
    a'.entry? h = if h.index = i then none else a.entry? h := by
  rw [Arena.entry?_eq, Arena.entry?_eq, hv.generations, hv.entries]
  by_cases hi : h.index = i
  · rw [if_pos hi, if_pos hi, if_pos hi, ite_self]
  · rw [if_neg hi, if_neg hi, if_neg hi]

/-- The handle of another slot is the one it was. -/
theorem Vacated.handleAt_eq {a a' : Arena α} {i j : Nat} (hv : Vacated a i a') (hj : j ≠ i) :
    a'.handleAt j = a.handleAt j := by
  have hg := hv.generations j
  rw [if_neg hj] at hg
  rw [handleAt, handleAt]
  exact congrArg (fun g : Option UInt32 => (⟨j, g.getD 0⟩ : Handle)) hg

/-- Handles stay issued unless the generation of the slot begins anew. -/
theorem Vacated.issued {a a' : Arena α} {i : Nat} (hv : Vacated a i a')
    (hbound : ∀ g, a.generation? i = some g → g.toNat + 1 < 4294967296) {h : Handle}
    (hi : a.Issued h) : a'.Issued h := by
  obtain ⟨g, hg, hcases⟩ := hi
  by_cases hslot : h.index = i
  · refine ⟨g + 1, by rw [hv.generations, if_pos hslot, hg]; rfl, Or.inl ?_⟩
    exact Issued.lt_succ ⟨g, hg, hcases⟩ hg (hbound g (hslot ▸ hg))
  · refine ⟨g, by rw [hv.generations, if_neg hslot, hg], ?_⟩
    rwa [hv.ownerAt?_eq, if_neg hslot]

/-- A slot leaves the list of the owner of its entry. -/
theorem slotsOf_remove {a : Arena α} {h : Handle} {owner : Nat} (howner : a.ownerOf? h = some owner)
    (o : Nat) : (a.remove h).2.slotsOf o =
      if owner = o then ((a.owners.getD owner []).filter (· ≠ h.index)).reverse
      else a.slotsOf o := by
  rw [slotsOf, remove, howner]
  dsimp only
  rw [owners_release, Std.TreeMap.getD_insert]
  simp only [Nat.compare_eq_eq]
  split <;> rfl

/-- Removing an entry empties its slot and puts it in front of the empty ones. -/
theorem remove_frame {a : Arena α} {h : Handle} {e : Nat × α} (he : a.entry? h = some e) :
    (∀ j, (a.remove h).2.entryAt? j = if j = h.index then none else a.entryAt? j) ∧
      (∀ j, (a.remove h).2.generation? j =
        if j = h.index then (a.generation? j).map (· + 1) else a.generation? j) ∧
      (a.remove h).2.free = h.index :: a.free := by
  rw [remove, ownerOf?, he]
  exact release_spec (a := { a with
    owners := a.owners.insert e.1 ((a.owners.getD e.1 []).filter (· ≠ h.index)) })
    (entry?_eq_some_iff.1 he).2

/-- What is removed is returned. -/
theorem fst_remove {a : Arena α} {h : Handle} {e : Nat × α} (he : a.entry? h = some e) :
    (a.remove h).1 = some e.2 := by
  have hat : a.slots[h.index]?.bind (·.entry) = some e := (entry?_eq_some_iff.1 he).2
  rw [remove, ownerOf?, he]
  dsimp only [Option.map_some]
  rw [release, hat]

/-- Removing an entry leaves a sound arena, in which the slot is vacated. -/
theorem remove_spec {a : Arena α} (hs : a.Sound) {h : Handle} {owner : Nat} {value : α}
    (he : a.entry? h = some (owner, value)) :
    Vacated a h.index (a.remove h).2 ∧ (a.remove h).2.Sound := by
  have hat := (entry?_eq_some_iff.1 he).2
  have howner : a.ownerAt? h.index = some owner := by
    rw [ownerAt?, hat]
    rfl
  obtain ⟨hentry, hgeneration, hfree⟩ := remove_frame he
  have hv : Vacated a h.index (a.remove h).2 := ⟨hentry, hgeneration⟩
  have hnodup : (a.owners.getD owner []).Nodup := List.nodup_reverse.1 (hs.owned_nodup owner)
  have hslots := slotsOf_remove (ownerOf?_eq_some_iff.2 ⟨value, he⟩)
  refine ⟨hv, ⟨?_, ?_, ?_, ?_⟩⟩
  · rw [hfree]
    refine List.nodup_cons.2 ⟨fun hmem => ?_, hs.free_nodup⟩
    rw [((hs.free_iff _).1 hmem).2] at howner
    cases howner
  · intro i
    rw [hv.generations, hv.ownerAt?_eq, hfree, List.mem_cons,
      show i ∈ ({ a with owners := _ } : Arena α).free ↔ _ from hs.free_iff i]
    by_cases hi : i = h.index
    · obtain ⟨g, hg⟩ := generation?_of_entryAt? hat
      simp [hi, hg]
    · simp [hi]
  · intro o
    rw [hslots]
    split
    · exact List.nodup_reverse.2 (hnodup.filter _)
    · exact hs.owned_nodup o
  · intro o i
    rw [hslots, hv.ownerAt?_eq]
    have howned := hs.owned_iff o i
    rw [slotsOf, List.mem_reverse] at howned
    by_cases ho : owner = o
    · rw [if_pos ho, List.mem_reverse, List.mem_filter, ho, howned]
      by_cases hi : i = h.index <;> simp [hi]
    · rw [if_neg ho, slotsOf, List.mem_reverse, howned]
      by_cases hi : i = h.index
      · simp [hi, howner, ho]
      · simp [hi]

/-- Nothing is removed through a handle that leads to nothing. -/
theorem remove_of_not_contains {a : Arena α} {h : Handle} (hh : ¬ a.contains h) :
    a.remove h = (none, a) := by
  have hnone : a.entry? h = none := by simpa [contains] using hh
  rw [remove, ownerOf?, hnone]
  rfl

/-- Another entry is in another slot, so it stays. -/
theorem contains_remove {a : Arena α} (hs : a.Sound) {h q : Handle} (hne : q ≠ h)
    (hq : a.contains q) : contains (a.remove h).2 q := by
  by_cases hlive : a.contains h
  · obtain ⟨e, he⟩ := contains_iff.1 hlive
    obtain ⟨e', he'⟩ := contains_iff.1 hq
    have hindex : q.index ≠ h.index := fun heq => hne <| by
      rw [← handleAt_eq_of_entry he', heq, handleAt_eq_of_entry he]
    rw [contains, (remove_spec hs he).1.entry?_eq, if_neg hindex]
    exact hq
  · rw [remove_of_not_contains hlive]
    exact hq

/-- A log stays right when a live handle's slot is vacated and the log says so. -/
theorem TrackedBy.vacate {a a' : Arena α} {log : HandleLog (Nat × α)} {h : Handle}
    (ht : a.TrackedBy log) (hh : (a.entry? h).isSome) (hv : Vacated a h.index a')
    (hbound : Bounded (.removed h :: log)) : a'.TrackedBy (.removed h :: log) :=
  Tracks.remove ht hh hbound hv.generations hv.entry?_eq

/-! ## Other steps -/

/-- A log stays right when an allocation is entered under the handle it was given. -/
theorem TrackedBy.allocate {a : Arena α} {log : HandleLog (Nat × α)} (ht : a.TrackedBy log)
    (hs : a.Sound) (hroom : a.HasRoom) (owner : Nat) (value : α) :
    (a.allocate owner value).2.TrackedBy
      (.stored (a.allocate owner value).1 (owner, value) :: log) := by
  have hall := allocate_spec hs hroom owner value
  refine Tracks.store ht (fun q hq => ?_) hall.generation_eq hall.generations fun q => ?_
  · have hvacant := hall.vacant
    rw [ownerAt?, Option.map_eq_none_iff, ← hq] at hvacant
    rw [entry?_eq, hvacant, ite_self]
  · by_cases hq : q = (a.allocate owner value).1
    · rw [if_pos hq, hq]
      exact hall.entry?_self
    · rw [if_neg hq]
      cases he : a.entry? q with
      | some e => exact hall.extends.entry? he
      | none =>
          cases he' : entry? (a.allocate owner value).2 q with
          | none => rfl
          | some e' =>
              rcases hall.entry?_cases he' with ⟨heq, _⟩ | hold
              · exact absurd heq hq
              · rw [he] at hold
                cases hold

/-- A log stays right when a value is rewritten and the log says how. -/
theorem TrackedBy.modify {a : Arena α} {log : HandleLog (Nat × α)} (ht : a.TrackedBy log)
    (h : Handle) (f : α → α) :
    (a.modify h f).TrackedBy (.changed h (fun e => (e.1, f e.2)) :: log) :=
  Tracks.change ht (generation?_modify a h f) fun q => entry?_modify a h q f

/-- Releasing several occupied slots removes their handles in order. -/
theorem TrackedBy.releaseAll {is : List Nat} {a : Arena α} {log : HandleLog (Nat × α)}
    (ht : a.TrackedBy log) (hnodup : is.Nodup) (hoccupied : ∀ i ∈ is, (a.entryAt? i).isSome)
    (hbound : Bounded (removeAll (is.map a.handleAt) log)) :
    (a.releaseAll is).2.TrackedBy (removeAll (is.map a.handleAt) log) := by
  induction is generalizing a log with
  | nil => exact ht
  | cons i rest ih =>
      obtain ⟨hfresh, hrest⟩ := List.nodup_cons.1 hnodup
      obtain ⟨e, he⟩ := Option.isSome_iff_exists.1 (hoccupied i (by simp))
      obtain ⟨hentry, hgeneration, _⟩ := release_spec he
      have hv : Vacated a i (a.release i).2 := ⟨hentry, hgeneration⟩
      have hne : ∀ j ∈ rest, j ≠ i := fun j hj heq => hfresh (heq ▸ hj)
      have hhandles : rest.map (a.release i).2.handleAt = rest.map a.handleAt :=
        List.map_congr_left fun j hj => hv.handleAt_eq (hne j hj)
      have hstill : ∀ j ∈ rest, ((a.release i).2.entryAt? j).isSome := by
        intro j hj
        rw [hentry, if_neg (hne j hj)]
        exact hoccupied j (by simp [hj])
      rw [List.map_cons, removeAll_cons, ← hhandles] at hbound ⊢
      refine ih (ht.vacate ?_ hv hbound.of_append) hrest hstill hbound
      rw [entry?_handleAt he]
      rfl

/-- A log stays right when an owner is removed and each of its handles is entered as removed. -/
theorem TrackedBy.removeOwner {a : Arena α} {log : HandleLog (Nat × α)} (ht : a.TrackedBy log)
    (hs : a.Sound) (owner : Nat) (hbound : Bounded (removeAll (a.handlesOf owner) log)) :
    (a.removeOwner owner).2.TrackedBy (removeAll (a.handlesOf owner) log) := by
  have hoccupied : ∀ i ∈ a.slotsOf owner, (a.entryAt? i).isSome := by
    intro i hi
    have howner := (hs.owned_iff owner i).1 hi
    rw [ownerAt?] at howner
    rw [← Option.isSome_map (f := fun e : Nat × α => e.1), howner]
    rfl
  exact TrackedBy.releaseAll (a := { a with owners := a.owners.erase owner }) ht
    (hs.owned_nodup owner) hoccupied hbound

/-! ## A single owner -/

/-- One owner has all entries, and its list has their slots. -/
structure HeldBy (owner : Nat) (a : Arena α) : Prop where
  owner_eq : ∀ i e, a.entryAt? i = some e → e.1 = owner
  listed : ∀ i e, a.entryAt? i = some e → i ∈ a.slotsOf owner

variable {a : Arena α} {owner : Nat}

/-- An empty arena is held by every owner. -/
theorem HeldBy.empty : HeldBy owner ({} : Arena α) := by
  constructor <;> simp [entryAt?]

/-- An arena with one owner still has one after that owner stores a value. -/
theorem HeldBy.allocate (ha : a.HeldBy owner) (value : α) :
    (a.allocate owner value).2.HeldBy owner := by
  refine ⟨fun i e he => ?_, fun i e he => ?_⟩
  · rcases entryAt?_allocate_cases he with ⟨_, rfl⟩ | hold
    · rfl
    · exact ha.owner_eq i e hold
  · rw [slotsOf_allocate, if_pos rfl, List.mem_append]
    rcases entryAt?_allocate_cases he with ⟨rfl, _⟩ | hold
    · exact Or.inr (List.mem_singleton.2 rfl)
    · exact Or.inl (ha.listed i e hold)

/-- An arena with one owner still has one after a value is rewritten. -/
theorem HeldBy.modify (ha : a.HeldBy owner) (h : Handle) (f : α → α) :
    (a.modify h f).HeldBy owner := by
  by_cases hh : a.contains h
  · have hslots : (a.modify h f).slotsOf = a.slotsOf := by
      rw [Arena.modify, if_pos hh]
      rfl
    have hbefore : ∀ i e, (a.modify h f).entryAt? i = some e →
        ∃ e', a.entryAt? i = some e' ∧ e.1 = e'.1 := by
      intro i e he
      rw [entryAt?_modify hh] at he
      split at he
      · obtain ⟨e', he', rfl⟩ := Option.map_eq_some_iff.1 he
        exact ⟨e', he', rfl⟩
      · exact ⟨e, he, rfl⟩
    refine ⟨fun i e he => ?_, fun i e he => ?_⟩
    · obtain ⟨e', he', heq⟩ := hbefore i e he
      exact heq.trans (ha.owner_eq i e' he')
    · obtain ⟨e', he', _⟩ := hbefore i e he
      rw [hslots]
      exact ha.listed i e' he'
  · rw [modify_of_not_contains hh]
    exact ha

/-- An arena with one owner still has one after a removal. -/
theorem HeldBy.remove (ha : a.HeldBy owner) (h : Handle) : (a.remove h).2.HeldBy owner := by
  by_cases hh : a.contains h
  · obtain ⟨x, hx⟩ := contains_iff.1 hh
    have hat := (entry?_eq_some_iff.1 hx).2
    have howner : a.ownerOf? h = some owner := by
      rw [ownerOf?, hx, Option.map_some, ha.owner_eq _ _ hat]
    have hentry := (remove_frame hx).1
    refine ⟨fun i e he => ?_, fun i e he => ?_⟩ <;> rw [hentry] at he <;> split at he
    · cases he
    · exact ha.owner_eq i e he
    · cases he
    · next hi =>
        rw [slotsOf_remove howner, if_pos rfl, List.mem_reverse, List.mem_filter]
        exact ⟨List.mem_reverse.1 (ha.listed i e he), decide_eq_true hi⟩
  · rw [remove_of_not_contains hh]
    exact ha

/-- Releasing slots, occupied or not, leaves what is in the others. -/
theorem entryAt?_releaseAll (is : List Nat) (a : Arena α) (j : Nat) :
    (a.releaseAll is).2.entryAt? j = if j ∈ is then none else a.entryAt? j := by
  induction is generalizing a with
  | nil => simp [releaseAll]
  | cons i rest ih =>
      have hrelease : (a.release i).2.entryAt? j = if j = i then none else a.entryAt? j := by
        cases he : a.entryAt? i with
        | some e => exact (release_spec he).1 j
        | none =>
            rw [release_of_vacant he]
            split
            · next hj => rw [hj]; exact he
            · rfl
      refine (ih (a.release i).2).trans ?_
      rw [hrelease]
      by_cases hj : j = i <;> simp [hj]

/-- Without the entries of its owner nothing is left. -/
theorem HeldBy.entryAt?_removeOwner (ha : a.HeldBy owner) (i : Nat) :
    entryAt? (a.removeOwner owner).2 i = none := by
  refine (entryAt?_releaseAll (a.slotsOf owner) { a with owners := _ } i).trans ?_
  split
  · rfl
  · next hi =>
      cases he : a.entryAt? i with
      | none => exact he
      | some e => exact absurd (ha.listed i e he) hi

/-- Nothing is left in an arena once the only owner is removed. -/
theorem HeldBy.entry?_removeOwner (ha : a.HeldBy owner) (h : Handle) :
    entry? (a.removeOwner owner).2 h = none := by
  rw [Arena.entry?_eq, ha.entryAt?_removeOwner, ite_self]

/-- An arena stays with one owner when that owner is removed. -/
theorem HeldBy.removeOwner (ha : a.HeldBy owner) : (a.removeOwner owner).2.HeldBy owner := by
  constructor <;> simp [ha.entryAt?_removeOwner]

/-! ## Runs -/

/-- An arena with the log of its handles since it was empty. -/
inductive Logged : Arena α → HandleLog (Nat × α) → Prop where
  | start : Logged {} []
  | stored {a log} (owner : Nat) (value : α) : Logged a log →
      Logged (a.allocate owner value).2 (.stored (a.allocate owner value).1 (owner, value) :: log)
  | changed {a log} (h : Handle) (f : α → α) : Logged a log →
      Logged (a.modify h f) (.changed h (fun e => (e.1, f e.2)) :: log)
  | freed {a log} (h : Handle) : Logged a log → a.contains h →
      Logged (a.remove h).2 (.removed h :: log)
  | stale {a log} (h : Handle) : Logged a log → ¬ a.contains h → Logged (a.remove h).2 log
  | removeOwner {a log} (owner : Nat) : Logged a log →
      Logged (a.removeOwner owner).2 (removeAll (a.handlesOf owner) log)

/-- What is true of an empty arena, and is kept by allocations, changes and releases and whatever is
listed for the owners, is true after every run. -/
theorem Logged.of_steps {P : Arena α → Prop} (hstart : P {})
    (hallocate : ∀ a owner value, P a → P (a.allocate owner value).2)
    (hmodify : ∀ a h f, P a → P (a.modify h f)) (hrelease : ∀ a i, P a → P (a.release i).2)
    (hlists : ∀ a owners, P a → P { a with owners }) {a : Arena α}
    {log : HandleLog (Nat × α)} (hlog : Logged a log) : P a := by
  have hreleaseAll : ∀ (is : List Nat) (a : Arena α), P a → P (a.releaseAll is).2 := by
    intro is
    induction is with
    | nil => exact fun a ha => ha
    | cons i rest ih => exact fun a ha => ih _ (hrelease a i ha)
  induction hlog with
  | start => exact hstart
  | stored owner value _ ih => exact hallocate _ owner value ih
  | changed h f _ ih => exact hmodify _ h f ih
  | freed h _ _ ih =>
      rw [remove]
      split
      · exact hrelease _ _ (hlists _ _ ih)
      · exact ih
  | stale h _ hh ih =>
      rw [remove_of_not_contains hh]
      exact ih
  | removeOwner owner _ ih => exact hreleaseAll _ _ (hlists _ _ ih)

/-- The records of an arena are exact as long as it has no more slots than there are words of 32
bits; it never loses slots, so that each entry of the run had room. -/
theorem Logged.sound {a : Arena α} {log : HandleLog (Nat × α)} (hlog : Logged a log)
    (hsize : a.slots.size ≤ 4294967296) : a.Sound := by
  induction hlog with
  | start => exact .empty
  | stored owner value _ ih =>
      have hbefore := ih (Nat.le_trans (size_slots_le_allocate _ owner value) hsize)
      exact hbefore.allocate (.of_allocate hsize) owner value
  | changed h f _ ih => exact (ih (size_slots_modify _ h f ▸ hsize)).modify h f
  | freed h _ hh ih =>
      obtain ⟨e, he⟩ := Option.isSome_iff_exists.1 hh
      exact (remove_spec (ih (size_slots_remove _ h ▸ hsize)) he).2
  | stale h _ hh ih =>
      rw [remove_of_not_contains hh] at hsize ⊢
      exact ih hsize
  | removeOwner owner _ ih =>
      exact (removeOwner_spec (ih (size_slots_removeOwner _ owner ▸ hsize)) owner).2

/-- The log of a run tells what every handle leads to. -/
theorem Logged.tracked {a : Arena α} {log : HandleLog (Nat × α)} (hlog : Logged a log)
    (hbound : log.Bounded) (hsize : a.slots.size ≤ 4294967296) : a.TrackedBy log := by
  induction hlog with
  | start =>
      refine Tracks.empty (fun i => ?_) fun h => ?_
      · simp [generation?]
      · simp [entry?_eq, generation?]
  | stored owner value hlog ih =>
      have hbefore := Nat.le_trans (size_slots_le_allocate _ owner value) hsize
      exact (ih hbound.tail hbefore).allocate (hlog.sound hbefore) (.of_allocate hsize) owner value
  | changed h f _ ih =>
      exact (ih hbound.tail (size_slots_modify _ h f ▸ hsize)).modify h f
  | freed h hlog hh ih =>
      have hbefore := size_slots_remove _ h ▸ hsize
      obtain ⟨e, he⟩ := Option.isSome_iff_exists.1 hh
      exact (ih hbound.tail hbefore).vacate hh (remove_spec (hlog.sound hbefore) he).1 hbound
  | stale h _ hh ih =>
      rw [remove_of_not_contains hh] at hsize ⊢
      exact ih hbound hsize
  | removeOwner owner hlog ih =>
      have hbefore := size_slots_removeOwner _ owner ▸ hsize
      exact (ih hbound.of_append hbefore).removeOwner (hlog.sound hbefore) owner hbound

end VaultKernel.Arena
