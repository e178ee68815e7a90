import VaultKernel.Proofs.Class.Stored

/-!
# Classes over time

`Succeeds` compares two moments in the life of the classes of a vault. A handle that was issued
means the same class for good: the class keeps its token, it is fixed once it is laid out, and when
it is gone it does not come back. Classes that are new have greater numbers than all that were
granted before. With `Numbered`, which says that living classes have different numbers, no two
classes ever share one. There is one lemma for each way in which a step changes the classes.
-/

namespace VaultKernel.Classes

open Arena

/-- What holds between the numbers and classes of a moment and those of a later one. -/
structure Succeeds (tokens : TokenCounter) (classes : Classes) (tokens' : TokenCounter)
    (classes' : Classes) : Prop where
  lastModule : tokens.lastModule.toNat ≤ tokens'.lastModule.toNat
  lastClass : tokens.lastClass.toNat ≤ tokens'.lastClass.toNat
  issued : ∀ r, classes.Issued r → classes'.Issued r
  gone : ∀ r, classes.Issued r → classes.entry? r = none → classes'.entry? r = none
  kept : ∀ r owner c owner' c', classes.entry? r = some (owner, c) →
    classes'.entry? r = some (owner', c') →
    owner' = owner ∧ c'.token = c.token ∧ (c.layout.isSome → c' = c)
  fresh : ∀ r owner c, classes'.entry? r = some (owner, c) → ¬ classes.Issued r →
    tokens.lastClass.toNat < c.token.classId.toNat

/-- Living classes have different numbers, all of which were granted. -/
structure Numbered (tokens : TokenCounter) (classes : Classes) : Prop where
  granted : ∀ r owner c, classes.entry? r = some (owner, c) →
    c.token.classId.toNat ≤ tokens.lastClass.toNat
  distinct : ∀ r owner c r' owner' c', classes.entry? r = some (owner, c) →
    classes.entry? r' = some (owner', c') → c.token.classId = c'.token.classId → r = r'

variable {tokens tokens' tokens₁ tokens₂ tokens₃ : TokenCounter}
  {classes classes' classes₁ classes₂ classes₃ : Classes}

/-- Granting numbers leaves the classes what they were. -/
theorem Succeeds.grant (classes : Classes)
    (hmodule : tokens.lastModule.toNat ≤ tokens'.lastModule.toNat)
    (hclass : tokens.lastClass.toNat ≤ tokens'.lastClass.toNat) :
    Succeeds tokens classes tokens' classes := by
  refine ⟨hmodule, hclass, fun _ hi => hi, fun _ _ hnone => hnone, ?_, ?_⟩
  · intro r owner c owner' c' he he'
    cases he.symm.trans he'
    exact ⟨rfl, rfl, fun _ => rfl⟩
  · exact fun r owner c he hi => absurd (.of_entry he) hi

theorem Succeeds.refl (tokens : TokenCounter) (classes : Classes) :
    Succeeds tokens classes tokens classes := .grant classes (Nat.le_refl _) (Nat.le_refl _)

/-- A class that was issued and is there later was there all the time. -/
theorem Succeeds.before (h : Succeeds tokens classes tokens' classes') {r : ClassRef} {owner : Nat}
    {c : Class} (hi : classes.Issued r) (he : classes'.entry? r = some (owner, c)) :
    ∃ c', classes.entry? r = some (owner, c') ∧ c.token = c'.token ∧
      (c'.layout.isSome → c = c') := by
  cases hold : classes.entry? r with
  | none =>
      rw [h.gone r hi hold] at he
      cases he
  | some e =>
      obtain ⟨rfl, htoken, hlaid⟩ := h.kept r e.1 e.2 owner c hold he
      exact ⟨e.2, rfl, htoken, hlaid⟩

/-- What a class is two moments later it is by way of the moment between them. -/
theorem Succeeds.trans (h₁₂ : Succeeds tokens₁ classes₁ tokens₂ classes₂)
    (h₂₃ : Succeeds tokens₂ classes₂ tokens₃ classes₃) :
    Succeeds tokens₁ classes₁ tokens₃ classes₃ := by
  refine ⟨Nat.le_trans h₁₂.lastModule h₂₃.lastModule, Nat.le_trans h₁₂.lastClass h₂₃.lastClass,
    fun r hi => h₂₃.issued r (h₁₂.issued r hi), ?_, ?_, ?_⟩
  · intro r hi hnone
    exact h₂₃.gone r (h₁₂.issued r hi) (h₁₂.gone r hi hnone)
  · intro r owner c owner' c' he he'
    obtain ⟨d, hd, htoken, hsame⟩ := h₂₃.before (h₁₂.issued r (.of_entry he)) he'
    obtain ⟨rfl, htoken', hsame'⟩ := h₁₂.kept r owner c owner' d he hd
    refine ⟨rfl, htoken.trans htoken', fun hlaid => ?_⟩
    obtain rfl := hsame' hlaid
    exact hsame hlaid
  · intro r owner c he hi
    by_cases hi₂ : classes₂.Issued r
    · -- the class came in between and has kept its number
      obtain ⟨d, hd, htoken, _⟩ := h₂₃.before hi₂ he
      rw [htoken]
      exact h₁₂.fresh r owner d hd hi
    · exact Nat.lt_of_le_of_lt h₁₂.lastClass (h₂₃.fresh r owner c he hi₂)

/-- Living classes keep different numbers if no class comes and no token changes. -/
theorem Numbered.mono (hn : Numbered tokens classes)
    (hclass : tokens.lastClass.toNat ≤ tokens'.lastClass.toNat)
    (hbefore : ∀ r owner c, classes'.entry? r = some (owner, c) →
      ∃ c', classes.entry? r = some (owner, c') ∧ c.token = c'.token) :
    Numbered tokens' classes' := by
  refine ⟨fun r owner c he => ?_, fun r owner c r' owner' c' he he' hid => ?_⟩
  · obtain ⟨d, hd, htoken⟩ := hbefore r owner c he
    rw [htoken]
    exact Nat.le_trans (hn.granted r owner d hd) hclass
  · obtain ⟨d, hd, htoken⟩ := hbefore r owner c he
    obtain ⟨d', hd', htoken'⟩ := hbefore r' owner' c' he'
    rw [htoken, htoken'] at hid
    exact hn.distinct r owner d r' owner' d' hd hd' hid

/-- No two classes have one token, however much time lies between them. -/
theorem Succeeds.eq_of_token (h : Succeeds tokens classes tokens' classes')
    (hn : Numbered tokens classes) {r r' : ClassRef} {owner owner' : Nat} {c c' : Class}
    (he : classes.entry? r = some (owner, c)) (he' : classes'.entry? r' = some (owner', c'))
    (hid : c.token.classId = c'.token.classId) : r = r' := by
  have hle := hn.granted r owner c he
  by_cases hi : classes.Issued r'
  · obtain ⟨d, hd, htoken, _⟩ := h.before hi he'
    rw [htoken] at hid
    exact hn.distinct r owner c r' owner' d he hd hid
  · have hlt := h.fresh r' owner' c' he' hi
    rw [hid] at hle
    omega

/-! ## Defining a class -/

/-- The granted number is the last one of the new counter. -/
theorem lastClass_of_nextClass? {id : UInt16} (h : tokens.nextClass? = some (id, tokens')) :
    tokens'.lastClass = id := by
  obtain ⟨last, _, heq⟩ := Option.map_eq_some_iff.1 h
  cases heq
  rfl

/-- A new class has a number that was never granted, and leaves the others what they were. -/
theorem Succeeds.define (hs : classes.Sound) (hroom : classes.HasRoom) {classId : UInt16}
    {owner : Nat} {c : Class}
    (hgrant : tokens.nextClass? = some (classId, tokens')) (htoken : c.token.classId = classId) :
    Succeeds tokens classes tokens' (classes.allocate owner c).2 := by
  obtain ⟨hmodule, hclass⟩ := nextClass?_eq_some hgrant
  have hall := allocate_spec hs hroom owner c
  refine ⟨Nat.le_of_eq (by rw [hmodule]), by omega, fun r hi => (hall.extends r hi).1, ?_, ?_, ?_⟩
  · intro r hi hnone
    rw [(hall.extends r hi).2, hnone]
  · intro r o d o' d' he he'
    cases (hall.extends.entry? he).symm.trans he'
    exact ⟨rfl, rfl, fun _ => rfl⟩
  · intro r o d he hi
    rcases hall.entry?_cases he with ⟨_, heq⟩ | hold
    · cases heq
      rw [htoken, ← lastClass_of_nextClass? hgrant]
      omega
    · exact absurd (.of_entry hold) hi

/-- A new class gets a number that no living class has. -/
theorem Numbered.define (hn : Numbered tokens classes) (hs : classes.Sound)
    (hroom : classes.HasRoom) {classId : UInt16} {owner : Nat} {c : Class}
    (hgrant : tokens.nextClass? = some (classId, tokens'))
    (htoken : c.token.classId = classId) : Numbered tokens' (classes.allocate owner c).2 := by
  have hclass := (nextClass?_eq_some hgrant).2
  have hnew : c.token.classId.toNat = tokens'.lastClass.toNat := by
    rw [htoken, lastClass_of_nextClass? hgrant]
  have hall := allocate_spec hs hroom owner c
  refine ⟨fun r o d he => ?_, fun r o d r' o' d' he he' hid => ?_⟩
  · rcases hall.entry?_cases he with ⟨_, heq⟩ | hold
    · cases heq
      exact Nat.le_of_eq hnew
    · have hle := hn.granted r o d hold
      omega
  · -- the number of the new class is greater than those of the others
    rcases hall.entry?_cases he with ⟨rfl, heq⟩ | hold <;>
      rcases hall.entry?_cases he' with ⟨rfl, heq'⟩ | hold'
    · rfl
    · cases heq
      have hle := hn.granted r' o' d' hold'
      rw [← hid] at hle
      omega
    · cases heq'
      have hle := hn.granted r o d hold
      rw [hid] at hle
      omega
    · exact hn.distinct r o d r' o' d' hold hold' hid

/-! ## Changing classes -/

/-- A class that is not laid out may be rewritten, as long as its token stays. -/
theorem Succeeds.modify (tokens : TokenCounter) {ref : ClassRef} {f : Class → Class}
    (hf : ∀ c, classes.get? ref = some c → c.layout = none ∧ (f c).token = c.token) :
    Succeeds tokens classes tokens (classes.modify ref f) := by
  refine ⟨Nat.le_refl _, Nat.le_refl _, fun r => (issued_modify _ _ _ _).2, ?_, ?_, ?_⟩
  · intro r _ hnone
    rw [entry?_modify, hnone]
    split <;> rfl
  · intro r owner c owner' c' he he'
    obtain ⟨d, hd, ⟨rfl, rfl⟩ | ⟨_, rfl⟩⟩ := entry?_of_modify he'
    · cases he.symm.trans hd
      obtain ⟨hnone, htoken⟩ := hf c (get?_eq_some_iff.2 ⟨owner, he⟩)
      exact ⟨rfl, htoken, fun hlaid => by simp [hnone] at hlaid⟩
    · cases he.symm.trans hd
      exact ⟨rfl, rfl, fun _ => rfl⟩
  · intro r owner c he hi
    obtain ⟨d, hd, _⟩ := entry?_of_modify he
    exact absurd (.of_entry hd) hi

/-- Rewriting a class keeps the numbers different, as long as its token stays. -/
theorem Numbered.modify (hn : Numbered tokens classes) {ref : ClassRef} {f : Class → Class}
    (hf : ∀ c, classes.get? ref = some c → (f c).token = c.token) :
    Numbered tokens (classes.modify ref f) := by
  refine hn.mono (Nat.le_refl _) fun r owner c he => ?_
  obtain ⟨d, hd, ⟨rfl, rfl⟩ | ⟨_, rfl⟩⟩ := entry?_of_modify he
  · exact ⟨d, hd, hf d (get?_eq_some_iff.2 ⟨owner, hd⟩)⟩
  · exact ⟨c, hd, rfl⟩

/-- The classes that a climb goes through have no layout. -/
theorem Climb.blank {cursor : Option ClassRef} {path : List ClassRef}
    (hclimb : Climb classes cursor path) {r : ClassRef} (hr : r ∈ path) :
    ∃ owner c, classes.entry? r = some (owner, c) ∧ c.layout = none := by
  induction hclimb with
  | top => cases hr
  | laid => cases hr
  | step he hnone _ _ ih =>
      rcases List.mem_cons.1 hr with rfl | hr
      · exact ⟨_, _, he, hnone⟩
      · exact ih hr

/-- What is laid out already is not on the climb. -/
theorem Climb.entry?_laid {cursor : Option ClassRef} {path : List ClassRef}
    (hclimb : Climb classes cursor path) {r : ClassRef} {owner : Nat} {c : Class}
    (he : classes.entry? r = some (owner, c)) (hlaid : c.layout.isSome) :
    Arena.entry? (path.reverse.foldl assignLayout classes) r = some (owner, c) := by
  obtain ⟨layout, hafter, _, hsame⟩ := (Relaid.foldl path.reverse classes).present r owner c he
  have hmem : r ∉ path.reverse := by
    intro hmem
    obtain ⟨owner', d, hd, hnone⟩ := hclimb.blank (List.mem_reverse.1 hmem)
    cases he.symm.trans hd
    simp [hnone] at hlaid
  rw [hafter, hsame hmem]

/-- Laying classes out fixes them, and leaves the tokens alone. -/
theorem Succeeds.layOut (tokens : TokenCounter) {cursor : Option ClassRef} {path : List ClassRef}
    (hclimb : Climb classes cursor path) :
    Succeeds tokens classes tokens (path.reverse.foldl assignLayout classes) := by
  have hrelaid := Relaid.foldl path.reverse classes
  refine ⟨Nat.le_refl _, Nat.le_refl _, fun r => (hrelaid.issued r).2, fun r _ => hrelaid.absent r,
    ?_, ?_⟩
  · intro r owner c owner' c' he he'
    obtain ⟨d, hd, heq⟩ := hrelaid.before he'
    cases he.symm.trans hd
    refine ⟨rfl, by rw [heq], fun hlaid => ?_⟩
    cases he'.symm.trans (hclimb.entry?_laid he hlaid)
    rfl
  · intro r owner c he hi
    obtain ⟨d, hd, _⟩ := hrelaid.before he
    exact absurd (.of_entry hd) hi

/-- Laying classes out keeps their numbers. -/
theorem Numbered.relaid (hn : Numbered tokens classes) {refs : List ClassRef}
    (hr : Relaid classes refs classes') : Numbered tokens classes' := by
  refine hn.mono (Nat.le_refl _) fun r owner c he => ?_
  obtain ⟨d, hd, heq⟩ := hr.before he
  exact ⟨d, hd, by rw [heq]⟩

/-! ## Removing the classes of a module -/

/-- Removing an owner takes classes away and changes none. -/
theorem Succeeds.removeOwner (hs : Stored tokens classes) (owner : Nat) :
    Succeeds tokens classes tokens (classes.removeOwner owner).2 := by
  obtain ⟨hd, _⟩ := removeOwner_spec hs.arena owner
  refine ⟨Nat.le_refl _, Nat.le_refl _, ?_, ?_, ?_, ?_⟩
  · exact fun r hi => hd.issued (fun i g hg => hs.generation_lt hg) hi
  · intro r _ hnone
    rw [hd.entry?_eq, hnone, ite_self]
  · intro r o c o' c' he he'
    cases he.symm.trans (hd.entry?_of_kept he').2
    exact ⟨rfl, rfl, fun _ => rfl⟩
  · intro r o c he hi
    exact absurd (.of_entry (hd.entry?_of_kept he).2) hi

/-- Removing an owner leaves the other classes with different numbers. -/
theorem Numbered.removeOwner (hn : Numbered tokens classes) (hs : classes.Sound) (owner : Nat) :
    Numbered tokens (classes.removeOwner owner).2 :=
  hn.mono (Nat.le_refl _) fun _ _ c he =>
    ⟨c, ((removeOwner_spec hs owner).1.entry?_of_kept he).2, rfl⟩

end VaultKernel.Classes
