import VaultKernel.Proofs.Class.Stored
import VaultKernel.Vault.Load

/-!
# Sound vaults

`Vault.Sound` is what holds of the classes and modules of a vault between any two steps, also while
modules are being loaded: the classes of loaded modules are exactly those stored under their number,
and all of them are laid out. A step that spares the classes of loaded modules keeps it.
-/

namespace VaultKernel.Vault

open Arena Classes

/-- The invariant of classes and modules. -/
structure Sound (v : Vault) : Prop extends Stored v.tokens v.classes where
  core : CoreType.owner.toNat ≤ v.tokens.lastModule.toNat
  predefined : ∀ t : CoreType, ∃ c, v.classes.entry? t.ref = some (CoreType.owner.toNat, c) ∧
    c.layout.isSome
  numbers : ∀ m ∈ v.modules.toList, CoreType.owner.toNat < m.id.toNat ∧
    m.id.toNat ≤ v.tokens.lastModule.toNat
  owned_iff : ∀ m ∈ v.modules.toList, ∀ r,
    r ∈ m.ownClasses ↔ v.classes.ownerOf? r = some m.id.toNat
  laidOut : ∀ m ∈ v.modules.toList, ∀ r owner c, r ∈ m.ownClasses →
    v.classes.entry? r = some (owner, c) → c.layout.isSome

variable {v v' : Vault} {id : ModuleId}

/-- Soundness is a matter of classes, modules and numbers. -/
theorem Sound.congr (hs : v.Sound) (hclasses : v'.classes = v.classes)
    (hmodules : v'.modules = v.modules) (htokens : v'.tokens = v.tokens) : v'.Sound := by
  refine ⟨?_, ?_, ?_, ?_, ?_, ?_⟩ <;> simp only [hclasses, hmodules, htokens]
  · exact hs.toStored
  · exact hs.core
  · exact hs.predefined
  · exact hs.numbers
  · exact hs.owned_iff
  · exact hs.laidOut

/-- The owners whose classes must stay: the runtime itself and the loaded modules. -/
def IsKept (modules : Array Module) (owner : Nat) : Prop :=
  owner = CoreType.owner.toNat ∨ ∃ m ∈ modules.toList, m.id.toNat = owner

/-- No class is kept under a number that was not given to a module yet. -/
theorem not_isKept {modules : Array Module} (hcore : CoreType.owner.toNat < id.toNat)
    (hfresh : ∀ m ∈ modules.toList, m.id ≠ id) : ¬ IsKept modules id.toNat := by
  rintro (heq | ⟨m, hm, heq⟩)
  · omega
  · exact hfresh m hm (UInt16.toNat_inj.1 heq)

/-- Modules may go, and classes may change as long as those of the other modules stay. -/
theorem Sound.step (hs : v.Sound) {tokens : TokenCounter} {classes : Classes}
    {modules : Array Module} (hstored : Stored tokens classes)
    (hmodule : v.tokens.lastModule.toNat ≤ tokens.lastModule.toNat)
    (hmodules : modules.toList ⊆ v.modules.toList)
    (hspares : Spares (IsKept modules) v.classes classes) :
    ({ v with tokens, classes, modules } : Vault).Sound := by
  refine ⟨hstored, Nat.le_trans hs.core hmodule, ?_, ?_, ?_, ?_⟩
  · intro t
    obtain ⟨c, he, hlayout⟩ := hs.predefined t
    obtain ⟨c', he', hlayout'⟩ := hspares.stays _ _ c (Or.inl rfl) he
    exact ⟨c', he', hlayout' hlayout⟩
  · intro m hm
    obtain ⟨hlt, hle⟩ := hs.numbers m (hmodules hm)
    exact ⟨hlt, Nat.le_trans hle hmodule⟩
  · intro m hm r
    have hkept : IsKept modules m.id.toNat := Or.inr ⟨m, hm, rfl⟩
    rw [hs.owned_iff m (hmodules hm), ownerOf?_eq_some_iff, ownerOf?_eq_some_iff]
    constructor
    · rintro ⟨c, he⟩
      obtain ⟨c', he', _⟩ := hspares.stays r _ c hkept he
      exact ⟨c', he'⟩
    · rintro ⟨c, he⟩
      exact hspares.before r _ c hkept he
  · intro m hm r owner c hr he
    have hkept : IsKept modules m.id.toNat := Or.inr ⟨m, hm, rfl⟩
    obtain ⟨d, hd⟩ := ownerOf?_eq_some_iff.1 ((hs.owned_iff m (hmodules hm) r).1 hr)
    obtain ⟨d', hd', hlayout⟩ := hspares.stays r _ d hkept hd
    cases he.symm.trans hd'
    exact hlayout (hs.laidOut m (hmodules hm) r _ d hr hd)

/-- Granting numbers keeps a vault sound. -/
theorem Sound.grant (hs : v.Sound) {tokens : TokenCounter}
    (hmodule : v.tokens.lastModule.toNat ≤ tokens.lastModule.toNat)
    (hclass : v.tokens.lastClass.toNat ≤ tokens.lastClass.toNat) :
    ({ v with tokens } : Vault).Sound :=
  hs.step (hs.toStored.grant hmodule hclass) hmodule (List.Subset.refl _) (.refl _ _)

/-- A class without a layout is changed. -/
theorem Sound.changeClass (hs : v.Sound) {ref : ClassRef} {f : Class → Class}
    (hf : ∀ c, v.class? ref = some c → c.layout = none ∧ (f c).layout = none ∧
      (f c).owner = c.owner ∧ (f c).token = c.token) :
    ({ v with classes := v.classes.modify ref f } : Vault).Sound := by
  refine hs.step (hs.toStored.modify hf) (Nat.le_refl _) (List.Subset.refl _) (.modify ?_)
  intro c hc hlayout
  rw [(hf c hc).1] at hlayout
  cases hlayout

/-- A class without a layout is defined for a module that is not loaded yet. -/
theorem Sound.define (hs : v.Sound) {tokens : TokenCounter} {classId : UInt16}
    (hgrant : v.tokens.nextClass? = some (classId, tokens)) {c : Class} (howner : c.owner = id)
    (htoken : c.token.moduleId = id) (hlayout : c.layout = none)
    (hcore : CoreType.owner.toNat < id.toNat) (hle : id.toNat ≤ v.tokens.lastModule.toNat)
    (hfresh : ∀ m ∈ v.modules.toList, m.id ≠ id) :
    ({ v with tokens, classes := (v.classes.allocate id.toNat c).2 } : Vault).Sound := by
  have hstored := hs.toStored.define hgrant howner htoken hlayout (Nat.zero_lt_of_lt hcore) hle
  refine hs.step hstored ?_ (List.Subset.refl _) (.define hs.toStored (not_isKept hcore hfresh) c)
  exact Nat.le_of_eq (by rw [(nextClass?_eq_some hgrant).1])

/-- Laying classes out keeps a vault sound. -/
theorem Sound.relaid (hs : v.Sound) {refs : List ClassRef} {classes : Classes}
    (hr : Relaid v.classes refs classes) (hrooted : ∀ r ∈ refs, Rooted classes r) :
    ({ v with classes } : Vault).Sound :=
  hs.step (hs.toStored.relaid hr hrooted) (Nat.le_refl _) (List.Subset.refl _) (.relaid hr)

/-- Modules go with their classes. -/
theorem Sound.release (hs : v.Sound) {modules : Array Module}
    (hmodules : modules.toList ⊆ v.modules.toList) (hcore : CoreType.owner.toNat < id.toNat)
    (hfresh : ∀ m ∈ modules.toList, m.id ≠ id) :
    (({ v with modules } : Vault).release id).Sound := by
  have hspares := Spares.removeOwner hs.toStored (not_isKept hcore hfresh)
  exact (hs.step (hs.toStored.removeOwner id.toNat) (Nat.le_refl _) hmodules hspares).congr
    rfl rfl rfl

/-- A module whose classes are all laid out becomes a loaded one. -/
theorem Sound.push (hs : v.Sound) {m : Module}
    (hnumber : CoreType.owner.toNat < m.id.toNat ∧ m.id.toNat ≤ v.tokens.lastModule.toNat)
    (howned : ∀ r, r ∈ m.ownClasses ↔ v.classes.ownerOf? r = some m.id.toNat)
    (hlaid : ∀ r owner c, r ∈ m.ownClasses → v.classes.entry? r = some (owner, c) →
      c.layout.isSome) : ({ v with modules := v.modules.push m } : Vault).Sound := by
  have hmem : ∀ m' ∈ (v.modules.push m).toList, m' ∈ v.modules.toList ∨ m' = m := by
    intro m' hm'
    simpa using hm'
  refine ⟨hs.toStored, hs.core, hs.predefined, ?_, ?_, ?_⟩
  · intro m' hm'
    rcases hmem m' hm' with hm' | rfl
    · exact hs.numbers m' hm'
    · exact hnumber
  · intro m' hm'
    rcases hmem m' hm' with hm' | rfl
    · exact hs.owned_iff m' hm'
    · exact howned
  · intro m' hm'
    rcases hmem m' hm' with hm' | rfl
    · exact hs.laidOut m' hm'
    · exact hlaid

end VaultKernel.Vault
