import Mathlib.Data.List.Nodup
import VaultKernel.Arena

/-!
# What arena operations do to slots

A slot is seen through its entry and its generation. `Sound` says that the stack of empty slots and
the lists of the owners are exact. An allocation keeps it so only while there is a number of 32 bits
for the slot that it takes (`HasRoom`). A handle is `Issued` once an entry was stored under it;
`Extends` says that everything behind the issued handles of one arena is the same in another one, so
that the second one only has more.
-/

namespace VaultKernel.Arena

variable {α : Type}

/-- The owner and the value in a slot. -/
def entryAt? (a : Arena α) (i : Nat) : Option (Nat × α) := a.slots[i]?.bind (·.entry)

/-- The owner of what is in a slot. -/
def ownerAt? (a : Arena α) (i : Nat) : Option Nat := (a.entryAt? i).map (·.1)

/-- The generation of a slot. -/
def generation? (a : Arena α) (i : Nat) : Option UInt32 := a.slots[i]?.map (·.generation)

/-- The empty slots and the slots of each owner are known exactly. -/
structure Sound (a : Arena α) : Prop where
  free_nodup : a.free.Nodup
  free_iff : ∀ i, i ∈ a.free ↔ (a.generation? i).isSome ∧ a.ownerAt? i = none
  owned_nodup : ∀ owner, (a.slotsOf owner).Nodup
  owned_iff : ∀ owner i, i ∈ a.slotsOf owner ↔ a.ownerAt? i = some owner

/-- A handle under which an entry is or was stored. -/
def Issued (a : Arena α) (h : Handle) : Prop :=
  ∃ g, a.generation? h.index = some g ∧
    (h.generation < g ∨ h.generation = g ∧ (a.ownerAt? h.index).isSome)

/-- What was stored in an arena is as it was in another one. -/
def Extends (a a' : Arena α) : Prop := ∀ h, a.Issued h → a'.Issued h ∧ a'.entry? h = a.entry? h

/-- The arena every store starts from is sound. -/
theorem Sound.empty : Sound ({} : Arena α) := by
  refine ⟨List.nodup_nil, ?_, ?_, ?_⟩
  · simp [generation?]
  · simp [slotsOf]
  · simp [slotsOf, ownerAt?, entryAt?]

/-! ## Look-up -/

/-- A slot has a generation exactly when the arena has that slot. -/
theorem isSome_generation? (a : Arena α) (i : Nat) :
    (a.generation? i).isSome ↔ i < a.slots.size := by
  simp [generation?]

/-- Two arenas with the same generations have as many slots. -/
theorem size_slots_eq_of_generations {a a' : Arena α}
    (hsame : ∀ i, a'.generation? i = a.generation? i) : a'.slots.size = a.slots.size := by
  have hlt : ∀ i, i < a'.slots.size ↔ i < a.slots.size := fun i => by
    rw [← isSome_generation?, hsame, isSome_generation?]
  have hle := (hlt a.slots.size).not.2 (Nat.lt_irrefl _)
  have hge := (hlt a'.slots.size).not.1 (Nat.lt_irrefl _)
  omega

/-- A handle denotes what its slot holds, as long as the generations agree. -/
theorem entry?_eq (a : Arena α) (h : Handle) :
    a.entry? h =
      if a.generation? h.index = some h.generation then a.entryAt? h.index else none := by
  unfold entry? generation? entryAt?
  cases a.slots[h.index]? with
  | none => rfl
  | some s => simp

/-- What it takes for a handle to denote an entry: the slot's generation and its contents. -/
theorem entry?_eq_some_iff {a : Arena α} {h : Handle} {e : Nat × α} :
    a.entry? h = some e ↔
      a.generation? h.index = some h.generation ∧ a.entryAt? h.index = some e := by
  rw [entry?_eq]
  split <;> simp_all

/-- The value a handle denotes is the value of an entry, whoever owns it. -/
theorem get?_eq_some_iff {a : Arena α} {h : Handle} {value : α} :
    a.get? h = some value ↔ ∃ owner, a.entry? h = some (owner, value) := by
  simp [get?]

/-- The owner of a handle is the owner of the entry it denotes. -/
theorem ownerOf?_eq_some_iff {a : Arena α} {h : Handle} {owner : Nat} :
    a.ownerOf? h = some owner ↔ ∃ value, a.entry? h = some (owner, value) := by
  simp [ownerOf?]

/-- An occupied slot has a generation. -/
theorem generation?_of_entryAt? {a : Arena α} {i : Nat} {e : Nat × α}
    (he : a.entryAt? i = some e) : ∃ g, a.generation? i = some g := by
  obtain ⟨s, hs, _⟩ := Option.bind_eq_some_iff.1 he
  exact ⟨s.generation, by rw [generation?, hs]; rfl⟩

/-- The handle of an occupied slot leads to what is in it. -/
theorem entry?_handleAt {a : Arena α} {i : Nat} {e : Nat × α} (he : a.entryAt? i = some e) :
    a.entry? (a.handleAt i) = some e := by
  obtain ⟨g, hg⟩ := generation?_of_entryAt? he
  refine entry?_eq_some_iff.2 ⟨?_, he⟩
  show a.generation? i = some ((a.generation? i).getD 0)
  rw [hg]
  rfl

/-- An entry has the handle of its slot. -/
theorem handleAt_eq_of_entry {a : Arena α} {h : Handle} {e : Nat × α} (he : a.entry? h = some e) :
    a.handleAt h.index = h := by
  obtain ⟨hg, _⟩ := entry?_eq_some_iff.1 he
  rw [handleAt, ← generation?, hg]
  rfl

/-- A handle is current exactly when it denotes an entry. -/
theorem contains_iff {a : Arena α} {h : Handle} : a.contains h ↔ ∃ e, a.entry? h = some e :=
  Option.isSome_iff_exists

/-- The list of an arena has every value under its handle. -/
theorem mem_toList_iff {a : Arena α} {h : Handle} {value : α} :
    (h, value) ∈ a.toList ↔ a.get? h = some value := by
  rw [toList, List.mem_filterMap]
  constructor
  · rintro ⟨i, _, hi⟩
    obtain ⟨found, hget, heq⟩ := Option.map_eq_some_iff.1 hi
    cases heq
    exact hget
  · intro hget
    obtain ⟨owner, he⟩ := get?_eq_some_iff.1 hget
    obtain ⟨hg, _⟩ := entry?_eq_some_iff.1 he
    have hlt : h.index < a.slots.size := (isSome_generation? a h.index).1 (by rw [hg]; rfl)
    refine ⟨h.index, List.mem_range.2 hlt, ?_⟩
    rw [handleAt_eq_of_entry he]
    exact Option.map_eq_some_iff.2 ⟨value, hget, rfl⟩

/-- The handles of an owner are those of its entries. -/
theorem Sound.mem_handlesOf_iff {a : Arena α} (hs : a.Sound) {owner : Nat} {h : Handle} :
    h ∈ a.handlesOf owner ↔ a.ownerOf? h = some owner := by
  rw [handlesOf, List.mem_map]
  constructor
  · rintro ⟨i, hi, rfl⟩
    obtain ⟨e, he, howner⟩ := Option.map_eq_some_iff.1 ((hs.owned_iff owner i).1 hi)
    rw [ownerOf?, entry?_handleAt he]
    exact congrArg some howner
  · intro howner
    obtain ⟨value, he⟩ := ownerOf?_eq_some_iff.1 howner
    refine ⟨h.index, (hs.owned_iff owner _).2 ?_, handleAt_eq_of_entry he⟩
    rw [ownerAt?, (entry?_eq_some_iff.1 he).2]
    rfl

/-- Different handles of living entries have different slots. -/
theorem nodup_index {a : Arena α} {hs : List Handle} (hnodup : hs.Nodup)
    (hlive : ∀ h ∈ hs, a.contains h) : (hs.map (·.index)).Nodup := by
  refine hnodup.map_on fun h hh q hq hindex => ?_
  obtain ⟨_, he⟩ := contains_iff.1 (hlive h hh)
  obtain ⟨_, he'⟩ := contains_iff.1 (hlive q hq)
  rw [← handleAt_eq_of_entry he, hindex, handleAt_eq_of_entry he']

/-- There are no more living entries than slots. -/
theorem length_le_of_contains {a : Arena α} {hs : List Handle} (hnodup : hs.Nodup)
    (hlive : ∀ h ∈ hs, a.contains h) : hs.length ≤ a.slots.size := by
  have hsub : hs.map (·.index) ⊆ List.range a.slots.size := by
    intro i hi
    obtain ⟨h, hh, rfl⟩ := List.mem_map.1 hi
    obtain ⟨_, he⟩ := contains_iff.1 (hlive h hh)
    rw [List.mem_range, ← isSome_generation?, (entry?_eq_some_iff.1 he).1]
    rfl
  simpa using (nodup_index hnodup hlive).length_le_of_subset hsub

/-- A handle that denotes something has been handed out. -/
theorem Issued.of_entry {a : Arena α} {h : Handle} {e : Nat × α} (he : a.entry? h = some e) :
    a.Issued h := by
  obtain ⟨hg, hat⟩ := entry?_eq_some_iff.1 he
  exact ⟨h.generation, hg, Or.inr ⟨rfl, by rw [ownerAt?, hat]; rfl⟩⟩

/-- Emptying a slot makes its handles older ones, unless the generation wraps around. -/
theorem Issued.lt_succ {a : Arena α} {h : Handle} (hi : a.Issued h) {g : UInt32}
    (hg : a.generation? h.index = some g) (hbound : g.toNat + 1 < 4294967296) :
    h.generation < g + 1 := by
  obtain ⟨g', hg', hcases⟩ := hi
  cases hg.symm.trans hg'
  have hle : h.generation.toNat ≤ g.toNat := by
    rcases hcases with hlt | ⟨heq, _⟩
    · exact Nat.le_of_lt (UInt32.lt_iff_toNat_lt.1 hlt)
    · exact Nat.le_of_eq (congrArg UInt32.toNat heq)
  rw [UInt32.lt_iff_toNat_lt, UInt32.toNat_add]
  have hone : (1 : UInt32).toNat = 1 := rfl
  omega

/-- An entry is still where it was in every extension of its arena. -/
theorem Extends.entry? {a a' : Arena α} (hext : Extends a a') {h : Handle} {e : Nat × α}
    (he : a.entry? h = some e) : a'.entry? h = some e :=
  (hext h (.of_entry he)).2.trans he

/-! ## Changing a value -/

/-- Rewriting a value changes the contents of its own slot and of no other. -/
theorem entryAt?_modify {a : Arena α} {h : Handle} (hh : a.contains h) (f : α → α) (i : Nat) :
    (a.modify h f).entryAt? i =
      if h.index = i then (a.entryAt? i).map fun (owner, value) => (owner, f value)
      else a.entryAt? i := by
  simp only [modify, if_pos hh, entryAt?, Array.getElem?_modify]
  split
  · cases a.slots[i]? <;> rfl
  · rfl

/-- Rewriting a value turns no generation. -/
theorem generation?_modify (a : Arena α) (h : Handle) (f : α → α) (i : Nat) :
    (a.modify h f).generation? i = a.generation? i := by
  unfold modify
  split
  · simp only [generation?, Array.getElem?_modify]
    split
    · cases a.slots[i]? <;> rfl
    · rfl
  · rfl

/-- Rewriting behind a handle that denotes nothing leaves the arena alone. -/
theorem modify_of_not_contains {a : Arena α} {h : Handle} (hh : ¬ a.contains h) (f : α → α) :
    a.modify h f = a := if_neg hh

/-- A change of a value is seen through its handle alone. -/
theorem entry?_modify (a : Arena α) (h q : Handle) (f : α → α) :
    entry? (a.modify h f) q =
      if q = h then (a.entry? q).map fun (owner, value) => (owner, f value) else a.entry? q := by
  by_cases hh : a.contains h
  · obtain ⟨e, he⟩ := Option.isSome_iff_exists.1 hh
    obtain ⟨hg, _⟩ := entry?_eq_some_iff.1 he
    simp only [entry?_eq, generation?_modify, entryAt?_modify hh]
    by_cases hi : h.index = q.index
    · -- two handles of one slot differ in their generations
      by_cases hq : a.generation? q.index = some q.generation
      · have hqh : q = h := by
          rw [hi, hq] at hg
          cases q
          cases h
          simp_all
        simp [hqh, hg]
      · have hqh : q ≠ h := fun heq => hq (heq ▸ hg)
        simp [hq, hqh]
    · have hqh : q ≠ h := fun heq => hi (by rw [heq])
      simp [hi, hqh]
  · rw [modify_of_not_contains hh]
    split
    · next heq =>
        have hnone : a.entry? h = none := by simpa [contains] using hh
        rw [heq, hnone]
        rfl
    · rfl

/-- What every handle denotes after a value was rewritten. -/
theorem get?_modify (a : Arena α) (h q : Handle) (f : α → α) :
    (a.modify h f).get? q = if q = h then (a.get? q).map f else a.get? q := by
  rw [get?, entry?_modify]
  split
  · rw [get?, Option.map_map, Option.map_map]
    rfl
  · rfl

/-- The same handles are current after a value was rewritten. -/
theorem contains_modify (a : Arena α) (h q : Handle) (f : α → α) :
    (a.modify h f).contains q = a.contains q := by
  rw [contains, contains, entry?_modify]
  split
  · exact Option.isSome_map
  · rfl

/-- No slot changes hands when a value is rewritten. -/
theorem ownerAt?_modify (a : Arena α) (h : Handle) (f : α → α) (i : Nat) :
    (a.modify h f).ownerAt? i = a.ownerAt? i := by
  by_cases hh : a.contains h
  · rw [ownerAt?, ownerAt?, entryAt?_modify hh]
    split
    · rw [Option.map_map]
      rfl
    · rfl
  · rw [modify_of_not_contains hh]

/-- Rewriting a value keeps an arena sound. -/
theorem Sound.modify {a : Arena α} (hs : a.Sound) (h : Handle) (f : α → α) :
    (a.modify h f).Sound := by
  have hlists : (a.modify h f).free = a.free ∧ (a.modify h f).slotsOf = a.slotsOf := by
    unfold Arena.modify
    split <;> exact ⟨rfl, rfl⟩
  refine ⟨?_, ?_, ?_, ?_⟩
  · rw [hlists.1]
    exact hs.free_nodup
  · intro i
    rw [hlists.1, generation?_modify, ownerAt?_modify]
    exact hs.free_iff i
  · rw [hlists.2]
    exact hs.owned_nodup
  · intro owner i
    rw [hlists.2, ownerAt?_modify]
    exact hs.owned_iff owner i

/-- Rewriting a value hands out no handle. -/
theorem issued_modify (a : Arena α) (h q : Handle) (f : α → α) :
    (a.modify h f).Issued q ↔ a.Issued q := by
  unfold Issued
  rw [generation?_modify, ownerAt?_modify]

theorem size_slots_modify (a : Arena α) (h : Handle) (f : α → α) :
    (a.modify h f).slots.size = a.slots.size := by
  unfold modify
  split
  · exact Array.size_modify
  · rfl

/-! ## Allocation -/

/-- An entry was stored under a new handle and everything else is as it was. -/
structure Allocated (a : Arena α) (owner : Nat) (value : α) (h : Handle) (a' : Arena α) :
    Prop where
  vacant : a.ownerAt? h.index = none
  generation_eq : (a.generation? h.index).getD 0 = h.generation
  entries : ∀ i, a'.entryAt? i = if i = h.index then some (owner, value) else a.entryAt? i
  generations : ∀ i, a'.generation? i = if i = h.index then some h.generation else a.generation? i

/-- Storing an entry in a slot. -/
theorem entryAt?_store (a : Arena α) {index : Nat} (hindex : index < a.slots.size) (e : Nat × α)
    (free : List Nat) (owners : Std.TreeMap Nat (List Nat)) (size i : Nat) :
    entryAt? ⟨a.slots.modify index fun s => { s with entry := some e }, free, owners, size⟩ i =
      if i = index then some e else a.entryAt? i := by
  simp only [entryAt?, Array.getElem?_modify]
  by_cases hi : i = index
  · subst hi
    simp [hindex]
  · rw [if_neg (Ne.symm hi), if_neg hi]

/-- Filling a slot turns no generation, whatever becomes of the lists beside the slots. -/
theorem generation?_store (a : Arena α) (index : Nat) (e : Nat × α) (free : List Nat)
    (owners : Std.TreeMap Nat (List Nat)) (size i : Nat) :
    generation? ⟨a.slots.modify index fun s => { s with entry := some e }, free, owners, size⟩ i =
      a.generation? i := by
  simp only [generation?, Array.getElem?_modify]
  split
  · cases a.slots[i]? <;> rfl
  · rfl

/-- A slot that is appended is vacant. -/
theorem entryAt?_push (a : Arena α) (i : Nat) :
    entryAt? { a with slots := a.slots.push {} } i = a.entryAt? i := by
  simp only [entryAt?, Array.getElem?_push]
  split
  · next hi => simp [hi]
  · rfl

/-- A slot that is appended starts at generation 0. -/
theorem generation?_push (a : Arena α) (i : Nat) :
    generation? { a with slots := a.slots.push {} } i =
      if i = a.slots.size then some 0 else a.generation? i := by
  simp only [generation?, Array.getElem?_push]
  split <;> rfl

/-- The next entry gets a slot of its own: an empty one, or a new one whose number fits in 32
bits. -/
def HasRoom (a : Arena α) : Prop := a.free ≠ [] ∨ a.slots.size < 4294967296

/-- Without empty slots, an arena with room takes a new one. -/
theorem HasRoom.takeSlot_eq {a : Arena α} (hroom : a.HasRoom) (hfree : a.free = []) :
    a.takeSlot = (a.slots.size, { a with slots := a.slots.push {} }) := by
  have hlt := hroom.resolve_left fun hne => hne hfree
  have hfits : (UInt32.ofNat a.slots.size).toNat = a.slots.size := Nat.mod_eq_of_lt hlt
  rw [takeSlot, hfree]
  exact congrArg (·, _) hfits

/-- With room, an allocation stores the entry and leaves everything else alone. -/
theorem allocate_spec {a : Arena α} (hs : a.Sound) (hroom : a.HasRoom) (owner : Nat) (value : α) :
    Allocated a owner value (a.allocate owner value).1 (a.allocate owner value).2 := by
  cases hfree : a.free with
  | cons index free =>
      unfold allocate takeSlot
      rw [hfree]
      obtain ⟨hsome, hvacant⟩ := (hs.free_iff index).1 (by simp [hfree])
      obtain ⟨g, hg⟩ := Option.isSome_iff_exists.1 hsome
      have hindex : index < a.slots.size := (isSome_generation? a index).1 hsome
      refine ⟨hvacant, rfl, fun i => entryAt?_store a hindex _ _ _ _ i, fun i => ?_⟩
      refine (generation?_store a index _ _ _ _ i).trans ?_
      show a.generation? i = if i = index then some ((a.generation? index).getD 0) else _
      by_cases hi : i = index
      · rw [if_pos hi, hi, hg]
        rfl
      · rw [if_neg hi]
  | nil =>
      rw [allocate, hroom.takeSlot_eq hfree]
      have hnew : ((a.slots.push {})[a.slots.size]?.map (·.generation)).getD 0 = 0 := by simp
      have hold : (a.generation? a.slots.size).getD 0 = 0 := by simp [generation?]
      have hvacant : a.ownerAt? a.slots.size = none := by simp [ownerAt?, entryAt?]
      refine ⟨hvacant, hold.trans hnew.symm, fun i => ?_, fun i => ?_⟩
      · refine (entryAt?_store { a with slots := a.slots.push {} } (by simp) _ _ _ _ i).trans ?_
        rw [entryAt?_push]
      · refine (generation?_store { a with slots := a.slots.push {} } _ _ _ _ _ i).trans ?_
        rw [generation?_push]
        show _ = if i = a.slots.size then
          some (((a.slots.push {})[a.slots.size]?.map (·.generation)).getD 0) else _
        rw [hnew]

/-- An allocation makes its owner the owner of one slot. -/
theorem Allocated.ownerAt?_eq {a a' : Arena α} {owner : Nat} {value : α} {h : Handle}
    (hall : Allocated a owner value h a') (i : Nat) :
    a'.ownerAt? i = if i = h.index then some owner else a.ownerAt? i := by
  rw [ownerAt?, hall.entries]
  split <;> rfl

/-- An allocation is entered at the end of its owner's list and in no other list. -/
theorem slotsOf_allocate (a : Arena α) (owner : Nat) (value : α) (o : Nat) :
    (a.allocate owner value).2.slotsOf o =
      if owner = o then a.slotsOf o ++ [(a.allocate owner value).1.index] else a.slotsOf o := by
  have howners : a.takeSlot.2.owners = a.owners := by
    unfold takeSlot
    split <;> rfl
  simp only [allocate, slotsOf, howners, Std.TreeMap.getD_insert, Nat.compare_eq_eq]
  split
  · next ho => rw [ho, List.reverse_cons]
  · rfl

/-- An allocation takes its slot off the free stack and leaves the others on it. -/
theorem free_allocate {a : Arena α} (hs : a.Sound) (owner : Nat) (value : α) (i : Nat) :
    i ∈ (a.allocate owner value).2.free ↔ i ∈ a.free ∧ i ≠ (a.allocate owner value).1.index := by
  have hnodup := hs.free_nodup
  unfold allocate takeSlot
  cases hfree : a.free with
  | nil => simp
  | cons index free =>
      have hindex : index ∉ free := by
        rw [hfree, List.nodup_cons] at hnodup
        exact hnodup.1
      show i ∈ free ↔ i ∈ index :: free ∧ i ≠ index
      constructor
      · intro hi
        exact ⟨List.mem_cons_of_mem _ hi, fun heq => hindex (heq ▸ hi)⟩
      · rintro ⟨hi, hne⟩
        exact (List.mem_cons.1 hi).resolve_left hne

/-- Taking a slot fills none. -/
theorem entryAt?_takeSlot (a : Arena α) (i : Nat) : a.takeSlot.2.entryAt? i = a.entryAt? i := by
  unfold takeSlot
  split
  · rfl
  · exact entryAt?_push a i

/-- Whatever slot an allocation takes, an entry is the new one in it or was there before. -/
theorem entryAt?_allocate_cases {a : Arena α} {owner : Nat} {value : α} {i : Nat} {e : Nat × α}
    (he : (a.allocate owner value).2.entryAt? i = some e) :
    i = (a.allocate owner value).1.index ∧ e = (owner, value) ∨ a.entryAt? i = some e := by
  rw [← entryAt?_takeSlot]
  obtain ⟨s, hs, hentry⟩ := Option.bind_eq_some_iff.1 he
  by_cases hi : a.takeSlot.1 = i
  · refine Or.inl ⟨hi.symm, ?_⟩
    simp only [allocate, Array.getElem?_modify, if_pos hi] at hs
    obtain ⟨s', _, rfl⟩ := Option.map_eq_some_iff.1 hs
    exact (Option.some.inj hentry).symm
  · refine Or.inr ?_
    simp only [allocate, Array.getElem?_modify, if_neg hi] at hs
    rw [entryAt?, hs]
    exact hentry

/-- Taking a slot turns the generation of no slot that was there. -/
theorem generation?_takeSlot (a : Arena α) {i : Nat} (hi : i < a.slots.size) :
    a.takeSlot.2.generation? i = a.generation? i := by
  unfold takeSlot
  split
  · rfl
  · rw [generation?_push, if_neg (Nat.ne_of_lt hi)]

/-- Without room as well, an entry is the new one or was there before. -/
theorem entry?_allocate_cases {a : Arena α} {owner : Nat} {value : α} {q : Handle} {e : Nat × α}
    (he : entry? (a.allocate owner value).2 q = some e) :
    e = (owner, value) ∨ a.entry? q = some e := by
  obtain ⟨hg, hat⟩ := entry?_eq_some_iff.1 he
  rcases entryAt?_allocate_cases hat with ⟨_, rfl⟩ | hold
  · exact Or.inl rfl
  · refine Or.inr (entry?_eq_some_iff.2 ⟨?_, hold⟩)
    obtain ⟨g, hlt⟩ := generation?_of_entryAt? hold
    have hi : q.index < a.slots.size := (isSome_generation? a _).1 (Option.isSome_of_eq_some hlt)
    rw [← hg, ← generation?_takeSlot a hi]
    exact (generation?_store a.takeSlot.2 _ _ _ _ _ _).symm

/-- An allocation keeps an arena sound, as long as there is a number for the slot it takes. -/
theorem Sound.allocate {a : Arena α} (hs : a.Sound) (hroom : a.HasRoom) (owner : Nat) (value : α) :
    (a.allocate owner value).2.Sound := by
  have hall := allocate_spec hs hroom owner value
  have howner := hall.ownerAt?_eq
  refine ⟨?_, ?_, ?_, ?_⟩
  · have hsub : (a.allocate owner value).2.free.Sublist a.free := by
      unfold Arena.allocate takeSlot
      cases hfree : a.free with
      | nil => exact List.Sublist.refl _
      | cons index free => exact List.sublist_cons_self _ _
    exact hs.free_nodup.sublist hsub
  · intro i
    rw [free_allocate hs, hs.free_iff, hall.generations, howner]
    by_cases hi : i = (a.allocate owner value).1.index <;> simp [hi]
  · intro o
    rw [slotsOf_allocate]
    split
    · next ho =>
        -- the new slot was empty and so stood in no list
        refine List.nodup_append'.2 ⟨hs.owned_nodup o, List.nodup_singleton _, ?_⟩
        intro i hi hmem
        rw [List.mem_singleton.1 hmem, hs.owned_iff, hall.vacant] at hi
        cases hi
    · exact hs.owned_nodup o
  · intro o i
    rw [slotsOf_allocate, howner]
    by_cases ho : owner = o
    · rw [if_pos ho, List.mem_append, hs.owned_iff, List.mem_singleton]
      split
      · next hi => simp [hi, ho]
      · next hi => simp [hi]
    · rw [if_neg ho, hs.owned_iff]
      split
      · next hi => simp [hi, hall.vacant, ho]
      · rfl

/-- Only an allocation without empty slots adds a slot. -/
theorem size_slots_allocate (a : Arena α) (owner : Nat) (value : α) :
    (a.allocate owner value).2.slots.size =
      if a.free = [] then a.slots.size + 1 else a.slots.size := by
  unfold allocate takeSlot
  cases a.free <;> simp

/-- An allocation takes no slot away. -/
theorem size_slots_le_allocate (a : Arena α) (owner : Nat) (value : α) :
    a.slots.size ≤ (a.allocate owner value).2.slots.size := by
  rw [size_slots_allocate]
  split
  · exact Nat.le_succ _
  · exact Nat.le_refl _

/-- An allocation appends one slot at most. -/
theorem size_slots_allocate_le (a : Arena α) (owner : Nat) (value : α) :
    (a.allocate owner value).2.slots.size ≤ a.slots.size + 1 := by
  rw [size_slots_allocate]
  split
  · exact Nat.le_refl _
  · exact Nat.le_succ _

/-- An arena had room for its last entry if it has no more slots than there are words of 32 bits. -/
theorem HasRoom.of_allocate {a : Arena α} {owner : Nat} {value : α}
    (hsize : (a.allocate owner value).2.slots.size ≤ 4294967296) : a.HasRoom := by
  rw [size_slots_allocate] at hsize
  by_cases hfree : a.free = []
  · rw [if_pos hfree] at hsize
    exact Or.inr hsize
  · exact Or.inl hfree

/-- A new handle was not issued before. -/
theorem Allocated.not_issued {a a' : Arena α} {owner : Nat} {value : α} {h : Handle}
    (hall : Allocated a owner value h a') : ¬ a.Issued h := by
  rintro ⟨g, hg, hcases⟩
  have hgeneration := hall.generation_eq
  rw [hg, Option.getD_some] at hgeneration
  rcases hcases with hlt | ⟨_, hsome⟩
  · exact UInt32.ne_of_lt hlt hgeneration.symm
  · rw [hall.vacant] at hsome
    cases hsome

/-- Allocation leaves what was issued alone. -/
theorem Allocated.extends {a a' : Arena α} {owner : Nat} {value : α} {h : Handle}
    (hall : Allocated a owner value h a') : Extends a a' := by
  intro q hq
  obtain ⟨g, hg, hcases⟩ := hq
  by_cases hi : q.index = h.index
  · -- the slot was empty, so the handle is older than the new one
    have hgeneration := hall.generation_eq
    rw [← hi, hg, Option.getD_some] at hgeneration
    have hlt : q.generation < g := by
      rcases hcases with hlt | ⟨_, hsome⟩
      · exact hlt
      · rw [hi, hall.vacant] at hsome
        cases hsome
    have hold : some g ≠ some q.generation := by
      simpa using (UInt32.ne_of_lt hlt).symm
    refine ⟨⟨g, ?_, Or.inl hlt⟩, ?_⟩
    · rw [hall.generations, if_pos hi, hgeneration]
    · rw [entry?_eq, entry?_eq, hall.generations, if_pos hi, hg, ← hgeneration, if_neg hold,
        if_neg hold]
  · refine ⟨⟨g, ?_, ?_⟩, ?_⟩
    · rw [hall.generations, if_neg hi, hg]
    · rwa [hall.ownerAt?_eq, if_neg hi]
    · rw [entry?_eq, entry?_eq, hall.generations, hall.entries, if_neg hi, if_neg hi]

/-- The handle of an allocation denotes what was stored. -/
theorem Allocated.entry?_self {a a' : Arena α} {owner : Nat} {value : α} {h : Handle}
    (hall : Allocated a owner value h a') : a'.entry? h = some (owner, value) := by
  rw [entry?_eq, hall.generations, hall.entries, if_pos rfl, if_pos rfl, if_pos rfl]

/-- An entry is the new one or was there before. -/
theorem Allocated.entry?_cases {a a' : Arena α} {owner : Nat} {value : α} {h q : Handle}
    {e : Nat × α} (hall : Allocated a owner value h a') (he : a'.entry? q = some e) :
    q = h ∧ e = (owner, value) ∨ a.entry? q = some e := by
  obtain ⟨hg, hat⟩ := entry?_eq_some_iff.1 he
  rw [hall.generations] at hg
  rw [hall.entries] at hat
  by_cases hi : q.index = h.index
  · rw [if_pos hi] at hg hat
    refine Or.inl ⟨?_, (Option.some.inj hat).symm⟩
    cases q
    cases h
    simp_all
  · rw [if_neg hi] at hg hat
    exact Or.inr (entry?_eq_some_iff.2 ⟨hg, hat⟩)

/-! ## Removal of an owner -/

/-- Releasing an occupied slot empties it, turns its generation and stacks it, and does nothing
else. -/
theorem release_spec {a : Arena α} {i : Nat} {e : Nat × α} (he : a.entryAt? i = some e) :
    (∀ j, (a.release i).2.entryAt? j = if j = i then none else a.entryAt? j) ∧
      (∀ j, (a.release i).2.generation? j =
        if j = i then (a.generation? j).map (· + 1) else a.generation? j) ∧
      (a.release i).2.free = i :: a.free := by
  have hrelease : a.release i = (some e.2, { a with
      slots := a.slots.modify i fun s => { generation := s.generation + 1, entry := none }
      free := i :: a.free
      size := a.size - 1 }) := by
    unfold release
    rw [entryAt?] at he
    rw [he]
  rw [hrelease]
  refine ⟨fun j => ?_, fun j => ?_, rfl⟩
  · simp only [entryAt?, Array.getElem?_modify]
    by_cases hj : j = i
    · subst hj
      rw [if_pos rfl, if_pos rfl]
      cases a.slots[j]? <;> rfl
    · rw [if_neg (Ne.symm hj), if_neg hj]
  · simp only [generation?, Array.getElem?_modify]
    by_cases hj : j = i
    · subst hj
      rw [if_pos rfl, if_pos rfl]
      cases a.slots[j]? <;> rfl
    · rw [if_neg (Ne.symm hj), if_neg hj]

/-- Nothing happens to an empty slot. -/
theorem release_of_vacant {a : Arena α} {i : Nat} (he : a.entryAt? i = none) :
    a.release i = (none, a) := by
  rw [entryAt?] at he
  rw [release, he]

/-- What is left after slots are released, occupied or not, was there before. -/
theorem entry?_of_releaseAll {is : List Nat} {a : Arena α} {h : Handle} {e : Nat × α}
    (he : entry? (a.releaseAll is).2 h = some e) : a.entry? h = some e := by
  induction is generalizing a with
  | nil => exact he
  | cons i rest ih =>
      have hrest : entry? (a.release i).2 h = some e := ih he
      cases hat : a.entryAt? i with
      | none => rwa [release_of_vacant hat] at hrest
      | some x =>
          obtain ⟨hentry, hgeneration, _⟩ := release_spec hat
          obtain ⟨hg, hleft⟩ := entry?_eq_some_iff.1 hrest
          have hne : h.index ≠ i := by
            intro hi
            rw [hentry, if_pos hi] at hleft
            cases hleft
          rw [hentry, if_neg hne] at hleft
          rw [hgeneration, if_neg hne] at hg
          exact entry?_eq_some_iff.2 ⟨hg, hleft⟩

/-- Releasing several occupied slots empties exactly these. -/
theorem releaseAll_spec {is : List Nat} {a : Arena α} (hnodup : is.Nodup)
    (hoccupied : ∀ i ∈ is, (a.ownerAt? i).isSome) :
    (∀ j, (a.releaseAll is).2.entryAt? j = if j ∈ is then none else a.entryAt? j) ∧
      (∀ j, (a.releaseAll is).2.generation? j =
        if j ∈ is then (a.generation? j).map (· + 1) else a.generation? j) ∧
      (a.releaseAll is).2.free = is.reverse ++ a.free := by
  induction is generalizing a with
  | nil => exact ⟨fun j => by simp [releaseAll], fun j => by simp [releaseAll], rfl⟩
  | cons i rest ih =>
      obtain ⟨hfresh, hrest⟩ := List.nodup_cons.1 hnodup
      have hi := hoccupied i (by simp)
      rw [ownerAt?, Option.isSome_map] at hi
      obtain ⟨e, he⟩ := Option.isSome_iff_exists.1 hi
      obtain ⟨hentry, hgeneration, hfree⟩ := release_spec he
      have hstill : ∀ j ∈ rest, ((a.release i).2.ownerAt? j).isSome := by
        intro j hj
        have hji : j ≠ i := fun heq => hfresh (heq ▸ hj)
        rw [ownerAt?, hentry, if_neg hji]
        exact hoccupied j (by simp [hj])
      obtain ⟨hentry', hgeneration', hfree'⟩ := ih hrest hstill
      refine ⟨fun j => ?_, fun j => ?_, ?_⟩
      · refine (hentry' j).trans ?_
        rw [hentry]
        by_cases hji : j = i
        · simp [hji]
        · simp [hji]
      · refine (hgeneration' j).trans ?_
        rw [hgeneration]
        by_cases hji : j = i
        · subst hji
          simp [hfresh]
        · simp [hji]
      · refine hfree'.trans ?_
        rw [hfree]
        simp

theorem size_slots_release (a : Arena α) (i : Nat) :
    (a.release i).2.slots.size = a.slots.size := by
  unfold release
  split
  · exact Array.size_modify
  · rfl

theorem size_slots_releaseAll (is : List Nat) (a : Arena α) :
    (a.releaseAll is).2.slots.size = a.slots.size := by
  induction is generalizing a with
  | nil => rfl
  | cons i rest ih => exact (ih (a.release i).2).trans (size_slots_release a i)

theorem size_slots_remove (a : Arena α) (h : Handle) :
    (a.remove h).2.slots.size = a.slots.size := by
  unfold remove
  split
  · exact size_slots_release _ _
  · rfl

theorem size_slots_removeOwner (a : Arena α) (owner : Nat) :
    (a.removeOwner owner).2.slots.size = a.slots.size :=
  size_slots_releaseAll _ { a with owners := a.owners.erase owner }

theorem owners_release (a : Arena α) (i : Nat) : (a.release i).2.owners = a.owners := by
  unfold release
  split <;> rfl

theorem owners_releaseAll (is : List Nat) (a : Arena α) :
    (a.releaseAll is).2.owners = a.owners := by
  induction is generalizing a with
  | nil => rfl
  | cons i rest ih => exact (ih (a.release i).2).trans (owners_release a i)

/-- The list of an owner goes as a whole. -/
theorem slotsOf_removeOwner (a : Arena α) (owner o : Nat) :
    (a.removeOwner owner).2.slotsOf o = if owner = o then [] else a.slotsOf o := by
  rw [slotsOf, removeOwner, owners_releaseAll, Std.TreeMap.getD_erase]
  simp only [Nat.compare_eq_eq]
  split <;> rfl

/-- The entries of an owner were removed and everything else is as it was. -/
structure Disowned (a : Arena α) (owner : Nat) (a' : Arena α) : Prop where
  entries : ∀ i, a'.entryAt? i = if a.ownerAt? i = some owner then none else a.entryAt? i
  generations : ∀ i, a'.generation? i =
    if a.ownerAt? i = some owner then (a.generation? i).map (· + 1) else a.generation? i

/-- Removing an owner leaves a slot with the owner it had, or with none. -/
theorem Disowned.ownerAt?_eq {a a' : Arena α} {owner : Nat} (hd : Disowned a owner a') (i : Nat) :
    a'.ownerAt? i = if a.ownerAt? i = some owner then none else a.ownerAt? i := by
  rw [ownerAt?, hd.entries]
  split <;> rfl

/-- Removing an owner empties that owner's slots only, and keeps the arena sound. -/
theorem removeOwner_spec {a : Arena α} (hs : a.Sound) (owner : Nat) :
    Disowned a owner (a.removeOwner owner).2 ∧ (a.removeOwner owner).2.Sound := by
  have hoccupied : ∀ i ∈ a.slotsOf owner,
      (ownerAt? { a with owners := a.owners.erase owner } i).isSome := by
    intro i hi
    show (a.ownerAt? i).isSome
    rw [(hs.owned_iff owner i).1 hi]
    rfl
  obtain ⟨hentry, hgeneration, hfree⟩ := releaseAll_spec (hs.owned_nodup owner) hoccupied
  have hd : Disowned a owner (a.removeOwner owner).2 := by
    refine ⟨fun i => ?_, fun i => ?_⟩
    · refine (hentry i).trans ?_
      simp only [hs.owned_iff]
      rfl
    · refine (hgeneration i).trans ?_
      simp only [hs.owned_iff]
      rfl
  have hslots := a.slotsOf_removeOwner owner
  refine ⟨hd, ⟨?_, ?_, ?_, ?_⟩⟩
  · rw [removeOwner, hfree]
    refine List.nodup_append'.2 ⟨List.nodup_reverse.2 (hs.owned_nodup owner), hs.free_nodup, ?_⟩
    intro i hi hmem
    rw [List.mem_reverse, hs.owned_iff] at hi
    rw [((hs.free_iff i).1 hmem).2] at hi
    cases hi
  · intro i
    rw [hd.generations, hd.ownerAt?_eq, removeOwner, hfree, List.mem_append, List.mem_reverse,
      hs.owned_iff, show i ∈ ({ a with owners := a.owners.erase owner } : Arena α).free ↔ _ from
        hs.free_iff i]
    by_cases ho : a.ownerAt? i = some owner
    · have hsome : (a.generation? i).isSome := by
        obtain ⟨e, he, _⟩ := Option.map_eq_some_iff.1 ho
        obtain ⟨g, hg⟩ := generation?_of_entryAt? he
        rw [hg]
        rfl
      simp [ho, hsome]
    · simp [ho]
  · intro o
    rw [hslots]
    split
    · exact List.nodup_nil
    · exact hs.owned_nodup o
  · intro o i
    rw [hslots, hd.ownerAt?_eq]
    by_cases ho : owner = o
    · subst ho
      by_cases hi : a.ownerAt? i = some owner <;> simp [hi]
    · rw [if_neg ho, hs.owned_iff]
      by_cases hi : a.ownerAt? i = some owner
      · simp [hi, ho]
      · simp [hi]

/-- What is behind a handle after the entries of an owner were removed. -/
theorem Disowned.entry?_eq {a a' : Arena α} {owner : Nat} (hd : Disowned a owner a') (h : Handle) :
    a'.entry? h = if a.ownerOf? h = some owner then none else a.entry? h := by
  rw [Arena.entry?_eq, hd.generations, hd.entries]
  by_cases ho : a.ownerAt? h.index = some owner
  · rw [if_pos ho, if_pos ho, ite_self]
    cases he : a.entry? h with
    | none => rw [ite_self]
    | some e =>
        obtain ⟨_, hat⟩ := entry?_eq_some_iff.1 he
        have howner : a.ownerOf? h = some owner := by
          rw [ownerAt?, hat] at ho
          rw [ownerOf?, he]
          exact ho
        rw [if_pos howner]
  · rw [if_neg ho, if_neg ho, ← Arena.entry?_eq]
    have howner : a.ownerOf? h ≠ some owner := by
      intro howner
      obtain ⟨value, he⟩ := ownerOf?_eq_some_iff.1 howner
      obtain ⟨_, hat⟩ := entry?_eq_some_iff.1 he
      exact ho (by rw [ownerAt?, hat]; rfl)
    rw [if_neg howner]

/-- What is left was there before, under another owner. -/
theorem Disowned.entry?_of_kept {a a' : Arena α} {owner : Nat} (hd : Disowned a owner a')
    {h : Handle} {e : Nat × α} (he : a'.entry? h = some e) : e.1 ≠ owner ∧ a.entry? h = some e := by
  rw [hd.entry?_eq] at he
  split at he
  · cases he
  · next hne =>
      refine ⟨fun heq => hne ?_, he⟩
      rw [ownerOf?, he, ← heq]
      rfl

/-- What another owner holds stays where it is. -/
theorem Disowned.entry?_kept {a a' : Arena α} {owner o : Nat} (hd : Disowned a owner a')
    {h : Handle} {value : α} (ho : o ≠ owner) (he : a.entry? h = some (o, value)) :
    a'.entry? h = some (o, value) := by
  rw [hd.entry?_eq, ownerOf?, he, if_neg]
  simpa using ho

/-- Handles stay issued as long as no generation begins anew. -/
theorem Disowned.issued {a a' : Arena α} {owner : Nat} (hd : Disowned a owner a')
    (hbound : ∀ i g, a.generation? i = some g → g.toNat + 1 < 4294967296) {h : Handle}
    (hi : a.Issued h) : a'.Issued h := by
  obtain ⟨g, hg, hcases⟩ := hi
  by_cases ho : a.ownerAt? h.index = some owner
  · refine ⟨g + 1, by rw [hd.generations, if_pos ho, hg]; rfl, Or.inl ?_⟩
    exact Issued.lt_succ ⟨g, hg, hcases⟩ hg (hbound h.index g hg)
  · refine ⟨g, by rw [hd.generations, if_neg ho, hg], ?_⟩
    rwa [hd.ownerAt?_eq, if_neg ho]

end VaultKernel.Arena
