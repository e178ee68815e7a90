import VaultKernel.Class.Predefined
import VaultKernel.Proofs.Class.Hierarchy

/-!
# Stored classes

`Stored` is what holds of the classes of a vault whoever they belong to: each is stored under the
number of its module, there are no more slots than class numbers were granted, no slot is filled
more often than that, and no cycle of parents is ever laid out. `Spares` says of a step that it
leaves the classes of some owners where they are. There is one lemma on both for each way in which a
step changes the classes.
-/

namespace VaultKernel

theorem CoreType.mem_all (t : CoreType) : t ∈ all := by
  cases t <;> decide

namespace Classes

open Arena

/-- The invariant of stored classes. -/
structure Stored (tokens : TokenCounter) (classes : Classes) : Prop where
  arena : classes.Sound
  /-- Class numbers are words of 16 bits, so the arena always has room for another class. -/
  slots_le : classes.slots.size ≤ tokens.lastClass.toNat
  /-- Each slot was filled at most as often as class numbers were granted. -/
  generations : ∀ i g, classes.generation? i = some g →
    g.toNat + (classes.ownerAt? i).toList.length ≤ tokens.lastClass.toNat
  /-- A class is stored under the number of its module, which its token carries. -/
  entries : ∀ r owner c, classes.entry? r = some (owner, c) →
    owner = c.owner.toNat ∧ c.token.moduleId = c.owner ∧ 0 < owner ∧
      owner ≤ tokens.lastModule.toNat
  rooted : ∀ r owner c, classes.entry? r = some (owner, c) → c.layout.isSome → classes.Rooted r

/-- No class of these owners comes, goes or loses its layout. -/
structure Spares (owned : Nat → Prop) (classes classes' : Classes) : Prop where
  stays : ∀ r owner c, owned owner → classes.entry? r = some (owner, c) →
    ∃ c', classes'.entry? r = some (owner, c') ∧ (c.layout.isSome → c'.layout.isSome)
  before : ∀ r owner c', owned owner → classes'.entry? r = some (owner, c') →
    ∃ c, classes.entry? r = some (owner, c)

variable {tokens tokens' : TokenCounter} {classes classes' : Classes} {owned : Nat → Prop}

theorem Spares.refl (owned : Nat → Prop) (classes : Classes) : Spares owned classes classes :=
  ⟨fun _ _ c _ he => ⟨c, he, id⟩, fun _ _ c _ he => ⟨c, he⟩⟩

/-! ## Granted numbers -/

/-- The number after another one is greater by one, and stays within 16 bits. -/
theorem following?_eq_some {last next : UInt16} (h : TokenCounter.following? last = some next) :
    next.toNat = last.toNat + 1 := by
  unfold TokenCounter.following? at h
  split at h
  · cases h
  · next hne =>
      cases h
      have hlt := last.toNat_lt
      have hne' : last.toNat ≠ 65535 := fun heq => hne (UInt16.toNat_inj.1 heq)
      have hone : (1 : UInt16).toNat = 1 := rfl
      rw [UInt16.toNat_add]
      omega

/-- A class number that is granted is the one after the last, and no module number is taken. -/
theorem nextClass?_eq_some {tokens tokens' : TokenCounter} {id : UInt16}
    (h : tokens.nextClass? = some (id, tokens')) :
    tokens'.lastModule = tokens.lastModule ∧
      tokens'.lastClass.toNat = tokens.lastClass.toNat + 1 := by
  obtain ⟨last, hlast, heq⟩ := Option.map_eq_some_iff.1 h
  cases heq
  exact ⟨rfl, following?_eq_some hlast⟩

/-- A module number that is granted is the one after the last, and no class number is taken. -/
theorem nextModule?_eq_some {tokens tokens' : TokenCounter} {id : ModuleId}
    (h : tokens.nextModule? = some (id, tokens')) :
    id.toNat = tokens.lastModule.toNat + 1 ∧ tokens' = { tokens with lastModule := id } := by
  obtain ⟨last, hlast, heq⟩ := Option.map_eq_some_iff.1 h
  cases heq
  exact ⟨following?_eq_some hlast, rfl⟩

/-- Granting numbers keeps the stored classes in order. -/
theorem Stored.grant (hs : Stored tokens classes)
    (hmodule : tokens.lastModule.toNat ≤ tokens'.lastModule.toNat)
    (hclass : tokens.lastClass.toNat ≤ tokens'.lastClass.toNat) : Stored tokens' classes := by
  refine ⟨hs.arena, Nat.le_trans hs.slots_le hclass, ?_, ?_, hs.rooted⟩
  · intro i g hg
    exact Nat.le_trans (hs.generations i g hg) hclass
  · intro r owner c he
    obtain ⟨howner, htoken, hpos, hle⟩ := hs.entries r owner c he
    exact ⟨howner, htoken, hpos, Nat.le_trans hle hmodule⟩

/-- No slot of stored classes has run out of generations. -/
theorem Stored.generation_lt (hs : Stored tokens classes) {i : Nat} {g : UInt32}
    (hg : classes.generation? i = some g) : g.toNat + 1 < 4294967296 := by
  have hbound := hs.generations i g hg
  have hlt := tokens.lastClass.toNat_lt
  omega

/-- There is a slot for a further class, as class numbers run out before slots do. -/
theorem Stored.hasRoom (hs : Stored tokens classes) : classes.HasRoom := by
  have hle := hs.slots_le
  have hlt := tokens.lastClass.toNat_lt
  exact Or.inr (by omega)

/-- A token without a module would belong to no one. -/
theorem Stored.token_isSet (hs : Stored tokens classes) {r : ClassRef} {owner : Nat} {c : Class}
    (he : classes.entry? r = some (owner, c)) : c.token.isSet := by
  obtain ⟨howner, htoken, hpos, _⟩ := hs.entries r owner c he
  refine decide_eq_true fun hunset => ?_
  rw [howner, ← htoken, hunset] at hpos
  exact absurd hpos (by decide)

/-! ## Changing a class -/

/-- Every class that is there was there before the change. -/
theorem entry?_of_modify {ref r : ClassRef} {f : Class → Class} {owner : Nat} {c : Class}
    (he : entry? (classes.modify ref f) r = some (owner, c)) :
    ∃ c', classes.entry? r = some (owner, c') ∧ (r = ref ∧ c = f c' ∨ r ≠ ref ∧ c = c') := by
  rw [entry?_modify] at he
  split at he
  · next hr =>
      obtain ⟨⟨owner', c'⟩, he', heq⟩ := Option.map_eq_some_iff.1 he
      cases heq
      exact ⟨c', he', Or.inl ⟨hr, rfl⟩⟩
  · next hr => exact ⟨c, he, Or.inr ⟨hr, rfl⟩⟩

/-- A class stays where it is, and keeps its layout if the change does. -/
theorem entry?_modify_kept {ref r : ClassRef} {f : Class → Class}
    (hf : ∀ c, classes.get? ref = some c → c.layout.isSome → (f c).layout.isSome) {owner : Nat}
    {c : Class} (he : classes.entry? r = some (owner, c)) :
    ∃ c', entry? (classes.modify ref f) r = some (owner, c') ∧
      (c.layout.isSome → c'.layout.isSome) := by
  rw [entry?_modify, he]
  split
  · next hr => exact ⟨f c, rfl, hf c (get?_eq_some_iff.2 ⟨owner, hr ▸ he⟩)⟩
  · exact ⟨c, rfl, id⟩

/-- Rewriting a class does not change its owner. -/
theorem ownerOf?_modify (classes : Classes) (ref r : ClassRef) (f : Class → Class) :
    (classes.modify ref f).ownerOf? r = classes.ownerOf? r := by
  rw [ownerOf?, entry?_modify, ownerOf?]
  split
  · rw [Option.map_map]
    rfl
  · rfl

/-- A class without a layout is changed. -/
theorem Stored.modify (hs : Stored tokens classes) {ref : ClassRef} {f : Class → Class}
    (hf : ∀ c, classes.get? ref = some c → c.layout = none ∧ (f c).layout = none ∧
      (f c).owner = c.owner ∧ (f c).token = c.token) : Stored tokens (classes.modify ref f) := by
  have hkeep : ∀ r owner c, classes.entry? r = some (owner, c) → c.layout.isSome →
      entry? (classes.modify ref f) r = some (owner, c) := by
    intro r owner c he hlayout
    have hne : r ≠ ref := by
      rintro rfl
      rw [(hf c (get?_eq_some_iff.2 ⟨owner, he⟩)).1] at hlayout
      cases hlayout
    rw [entry?_modify, if_neg hne, he]
  refine ⟨hs.arena.modify ref f, ?_, ?_, ?_, ?_⟩
  · rw [size_slots_modify]
    exact hs.slots_le
  · intro i g hg
    rw [generation?_modify] at hg
    rw [ownerAt?_modify]
    exact hs.generations i g hg
  · intro r owner c he
    obtain ⟨c', he', ⟨rfl, rfl⟩ | ⟨_, rfl⟩⟩ := entry?_of_modify he
    · obtain ⟨_, _, howner, htoken⟩ := hf c' (get?_eq_some_iff.2 ⟨owner, he'⟩)
      rw [howner, htoken]
      exact hs.entries r owner c' he'
    · exact hs.entries r owner c he'
  · intro r owner c he hlayout
    obtain ⟨c', he', ⟨rfl, rfl⟩ | ⟨_, rfl⟩⟩ := entry?_of_modify he
    · rw [(hf c' (get?_eq_some_iff.2 ⟨owner, he'⟩)).2.1] at hlayout
      cases hlayout
    · -- the changed class has no layout, so it is on no chain
      refine (hs.rooted r owner c he' hlayout).mono (fun q => (issued_modify _ _ _ _).2) ?_ ?_
      · intro q _ hnone
        rw [entry?_modify, hnone]
        split <;> rfl
      · intro q owner' d hd hlayout'
        exact Or.inr ⟨owner', d, hkeep q owner' d hd hlayout', hlayout', rfl, rfl⟩

/-- Rewriting a class spares the others, and the class itself if it stays laid out. -/
theorem Spares.modify {ref : ClassRef} {f : Class → Class}
    (hf : ∀ c, classes.get? ref = some c → c.layout.isSome → (f c).layout.isSome) :
    Spares owned classes (classes.modify ref f) := by
  refine ⟨fun r owner c _ he => ?_, fun r owner c _ he => ?_⟩
  · exact entry?_modify_kept hf he
  · obtain ⟨c', he', _⟩ := entry?_of_modify he
    exact ⟨c', he'⟩

/-! ## Defining a class -/

/-- A class without a layout is defined under a granted number. -/
theorem Stored.define (hs : Stored tokens classes) {classId : UInt16}
    (hgrant : tokens.nextClass? = some (classId, tokens')) {id : ModuleId} {c : Class}
    (howner : c.owner = id) (htoken : c.token.moduleId = id) (hlayout : c.layout = none)
    (hpos : 0 < id.toNat) (hle : id.toNat ≤ tokens.lastModule.toNat) :
    Stored tokens' (classes.allocate id.toNat c).2 := by
  obtain ⟨hmodule, hclass⟩ := nextClass?_eq_some hgrant
  have hall := allocate_spec hs.arena hs.hasRoom id.toNat c
  have hext := hall.extends
  refine ⟨hs.arena.allocate hs.hasRoom _ _, ?_, ?_, ?_, ?_⟩
  · have hle := hs.slots_le
    rw [size_slots_allocate, hclass]
    split <;> omega
  · intro i g hg
    rw [hall.ownerAt?_eq]
    rw [hall.generations] at hg
    by_cases hi : i = (classes.allocate id.toNat c).1.index
    · rw [if_pos hi] at hg ⊢
      cases hg
      have hgeneration := hall.generation_eq
      rw [← hgeneration, hclass]
      -- an empty slot had room for one more, and a new one is filled for the first time
      cases hold : classes.generation? (classes.allocate id.toNat c).1.index with
      | none => simp
      | some g =>
          have hbound := hs.generations _ g hold
          rw [hall.vacant] at hbound
          simpa using hbound
    · rw [if_neg hi] at hg ⊢
      have hbound := hs.generations i g hg
      omega
  · intro r owner d he
    rw [hmodule]
    rcases hall.entry?_cases he with ⟨_, heq⟩ | hold
    · cases heq
      exact ⟨by rw [howner], by rw [htoken, howner], hpos, hle⟩
    · exact hs.entries r owner d hold
  · intro r owner d he hlaid
    rcases hall.entry?_cases he with ⟨_, heq⟩ | hold
    · cases heq
      rw [hlayout] at hlaid
      cases hlaid
    · refine (hs.rooted r owner d hold hlaid).mono (fun q hq => (hext q hq).1) ?_ ?_
      · intro q hq hnone
        rw [(hext q hq).2, hnone]
      · intro q owner' d' he' hlaid'
        exact Or.inr ⟨owner', d', hext.entry? he', hlaid', rfl, rfl⟩

/-- Defining a class spares the classes of all other owners. -/
theorem Spares.define (hs : Stored tokens classes) {owner : Nat} (howner : ¬ owned owner)
    (c : Class) : Spares owned classes (classes.allocate owner c).2 := by
  have hall := allocate_spec hs.arena hs.hasRoom owner c
  refine ⟨fun r o d _ he => ⟨d, hall.extends.entry? he, id⟩, fun r o d ho he => ?_⟩
  rcases hall.entry?_cases he with ⟨_, heq⟩ | hold
  · cases heq
    exact absurd ho howner
  · exact ⟨d, hold⟩

/-! ## Laying classes out -/

/-- Laying classes out keeps the stored classes in order, if no circle is laid out. -/
theorem Stored.relaid (hs : Stored tokens classes) {refs : List ClassRef}
    (hr : Relaid classes refs classes') (hrooted : ∀ r ∈ refs, Rooted classes' r) :
    Stored tokens classes' := by
  refine ⟨hr.sound hs.arena, ?_, ?_, ?_, ?_⟩
  · rw [size_slots_eq_of_generations hr.generations]
    exact hs.slots_le
  · intro i g hg
    rw [hr.generations] at hg
    rw [hr.owners]
    exact hs.generations i g hg
  · intro r owner c he
    obtain ⟨c', hbefore, heq⟩ := hr.before he
    rw [heq]
    exact hs.entries r owner c' hbefore
  · intro r owner c he hlayout
    by_cases hmem : r ∈ refs
    · exact hrooted r hmem
    · obtain ⟨c', hbefore, _⟩ := hr.before he
      obtain ⟨layout, hafter, _, hsame⟩ := hr.present r owner c' hbefore
      cases he.symm.trans hafter
      refine hr.rooted (hs.rooted r owner c' hbefore ?_)
      rw [← hsame hmem]
      exact hlayout

/-- Laying classes out spares all of them. -/
theorem Spares.relaid {refs : List ClassRef} (hr : Relaid classes refs classes') :
    Spares owned classes classes' := by
  refine ⟨fun r owner c _ he => ?_, fun r owner c _ he => ?_⟩
  · obtain ⟨layout, hafter, _⟩ := hr.present r owner c he
    exact ⟨_, hafter, fun hlayout => hr.laidOut he (Or.inl hlayout) hafter⟩
  · obtain ⟨c', hbefore, _⟩ := hr.before he
    exact ⟨c', hbefore⟩

/-! ## Removing the classes of a module -/

/-- Removing an owner keeps the stored classes in order. -/
theorem Stored.removeOwner (hs : Stored tokens classes) (owner : Nat) :
    Stored tokens (classes.removeOwner owner).2 := by
  obtain ⟨hd, harena⟩ := removeOwner_spec hs.arena owner
  refine ⟨harena, ?_, ?_, ?_, ?_⟩
  · rw [size_slots_removeOwner]
    exact hs.slots_le
  · intro i g hg
    rw [hd.ownerAt?_eq]
    rw [hd.generations] at hg
    by_cases ho : classes.ownerAt? i = some owner
    · -- the generation goes up by one as the entry goes away
      rw [if_pos ho] at hg ⊢
      obtain ⟨g', hg', rfl⟩ := Option.map_eq_some_iff.1 hg
      have hbound := hs.generations i g' hg'
      have hlt := hs.generation_lt hg'
      have hone : (1 : UInt32).toNat = 1 := rfl
      rw [ho] at hbound
      rw [UInt32.toNat_add]
      simp only [Option.toList_some, List.length_singleton, Option.toList_none,
        List.length_nil] at hbound ⊢
      omega
    · rw [if_neg ho] at hg ⊢
      exact hs.generations i g hg
  · intro r o c he
    exact hs.entries r o c (hd.entry?_of_kept he).2
  · intro r o c he hlayout
    refine (hs.rooted r o c (hd.entry?_of_kept he).2 hlayout).mono ?_ ?_ ?_
    · intro q hq
      exact hd.issued (fun i g hg => hs.generation_lt hg) hq
    · intro q _ hnone
      rw [hd.entry?_eq, hnone, ite_self]
    · intro q o' c' he' hlayout'
      by_cases ho : o' = owner
      · left
        rw [hd.entry?_eq, ownerOf?, he', ho]
        simp
      · exact Or.inr ⟨o', c', hd.entry?_kept ho he', hlayout', rfl, rfl⟩

/-- Removing an owner spares the classes of the others. -/
theorem Spares.removeOwner (hs : Stored tokens classes) {owner : Nat} (howner : ¬ owned owner) :
    Spares owned classes (classes.removeOwner owner).2 := by
  obtain ⟨hd, _⟩ := removeOwner_spec hs.arena owner
  refine ⟨fun r o c ho he => ⟨c, hd.entry?_kept ?_ he, id⟩, fun r o c _ he =>
    ⟨c, (hd.entry?_of_kept he).2⟩⟩
  rintro rfl
  exact howner ho

end Classes

end VaultKernel
