import VaultKernel.Proofs.Class.Succession
import VaultKernel.Proofs.Vault.Sound

/-!
# What a step changes

`Private id v v'` lists the single changes that the stages of a load make: only the classes of the
module that is being loaded, the class numbers and the registry change. `Keeps v v'` is what every
public operation guarantees to a load that is under way around it: the classes of modules that are
not loaded are left alone, and whatever is new belongs to modules with later numbers.
-/

namespace VaultKernel.Vault

open Arena Classes

/-- A single change that a load makes for its own module: of its classes, of the class numbers or of
the registry. A class that has its layout is not changed any more. -/
inductive Private (id : ModuleId) : Vault → Vault → Prop where
  | withRegistry (v : Vault) (registry : NativeRegistry) : Private id v { v with registry }
  | define {v : Vault} {classId : UInt16} {tokens : TokenCounter} {c : Class} :
      v.classes.Sound → v.classes.HasRoom → 0 < id.toNat → id.toNat ≤ v.tokens.lastModule.toNat →
      v.tokens.nextClass? = some (classId, tokens) → c.token = ⟨id, classId⟩ → c.owner = id →
      c.layout = none →
      Private id v { v with tokens, classes := (v.classes.allocate id.toNat c).2 }
  | changeClass {v : Vault} {ref : ClassRef} {f : Class → Class} :
      v.classes.ownerOf? ref = some id.toNat →
      (∀ c, v.class? ref = some c → c.layout = none ∧ (f c).layout = none ∧
        (f c).owner = c.owner ∧ (f c).token = c.token) →
      Private id v { v with classes := v.classes.modify ref f }
  | layOut {v : Vault} {ref : ClassRef} {path : List ClassRef} :
      Climb v.classes (some ref) path → (∀ r ∈ path, v.classes.ownerOf? r = some id.toNat) →
      Private id v { v with classes := path.reverse.foldl assignLayout v.classes }

variable {id : ModuleId} {v v' v₁ v₂ v₃ : Vault}

/-- Nothing but classes, class numbers and the registry differs. -/
theorem Private.rest (h : Private id v v') :
    v' = { v with classes := v'.classes, tokens := v'.tokens, registry := v'.registry } := by
  cases h <;> rfl

/-- A change of a load takes no module number. -/
theorem Private.lastModule (h : Private id v v') : v'.tokens.lastModule = v.tokens.lastModule := by
  cases h with
  | define _ _ _ _ hgrant => exact (nextClass?_eq_some hgrant).1
  | _ => rfl

/-- A class stays, and as it is if it is laid out. -/
theorem Private.succeeds (h : Private id v v') :
    Succeeds v.tokens v.classes v'.tokens v'.classes := by
  cases h with
  | withRegistry => exact .refl _ _
  | define hs hroom _ _ hgrant htoken => exact .define hs hroom hgrant (by rw [htoken])
  | changeClass _ hf => exact .modify _ fun c hc => ⟨(hf c hc).1, (hf c hc).2.2.2⟩
  | layOut hclimb => exact .layOut _ hclimb

/-- No class goes in a change of a load. -/
theorem Private.stays (h : Private id v v') {r : ClassRef} (hr : v.classes.contains r) :
    v'.classes.contains r := by
  obtain ⟨⟨owner, c⟩, he⟩ := contains_iff.1 hr
  cases h with
  | withRegistry => exact hr
  | define hs hroom => exact contains_iff.2 ⟨_, (allocate_spec hs hroom _ _).extends.entry? he⟩
  | @changeClass ref f =>
      show contains (v.classes.modify ref f) r
      rw [contains, entry?_modify]
      split
      · rw [Option.isSome_map]
        exact hr
      · exact hr
  | @layOut _ path =>
      obtain ⟨layout, hafter, _⟩ := (Relaid.foldl path.reverse v.classes).present r owner c he
      exact contains_iff.2 ⟨_, hafter⟩

/-- A laid out class stays as it is in a change of a load. -/
theorem Private.laid (h : Private id v v') (r : ClassRef) (c : Class) (hc : v.class? r = some c)
    (hlaid : c.layout.isSome) : v'.class? r = some c := by
  obtain ⟨owner, he⟩ := get?_eq_some_iff.1 hc
  obtain ⟨⟨owner', c'⟩, he'⟩ := contains_iff.1 (h.stays (contains_iff.2 ⟨_, he⟩))
  obtain ⟨_, _, hsame⟩ := h.succeeds.kept r owner c owner' c' he he'
  exact get?_eq_some_iff.2 ⟨owner', hsame hlaid ▸ he'⟩

/-- The classes of other modules are as they were. -/
theorem Private.entries (h : Private id v v') (r : ClassRef) (owner : Nat) (c : Class)
    (hne : owner ≠ id.toNat) :
    v'.classes.entry? r = some (owner, c) ↔ v.classes.entry? r = some (owner, c) := by
  cases h with
  | withRegistry => exact Iff.rfl
  | @define _ _ new hs hroom =>
      have hall := allocate_spec hs hroom id.toNat new
      refine ⟨fun he => ?_, fun he => hall.extends.entry? he⟩
      rcases hall.entry?_cases he with ⟨_, heq⟩ | hold
      · exact absurd (congrArg Prod.fst heq) hne
      · exact hold
  | @changeClass ref f howner =>
      obtain ⟨d, hd⟩ := ownerOf?_eq_some_iff.1 howner
      show entry? (v.classes.modify ref f) r = _ ↔ _
      rw [entry?_modify]
      by_cases hr : r = ref
      · rw [if_pos hr, hr, hd]
        simp [Ne.symm hne]
      · rw [if_neg hr]
  | @layOut _ path _ howner =>
      have hrelaid := Relaid.foldl path.reverse v.classes
      -- a class of another owner is not among those that are laid out
      have hsame : ∀ d, v.classes.entry? r = some (owner, d) →
          Arena.entry? (path.reverse.foldl assignLayout v.classes) r = some (owner, d) := by
        intro d hd
        obtain ⟨layout, hafter, _, hlayout⟩ := hrelaid.present r owner d hd
        have hmem : r ∉ path.reverse := by
          intro hmem
          obtain ⟨d', hd'⟩ := ownerOf?_eq_some_iff.1 (howner r (List.mem_reverse.1 hmem))
          cases hd.symm.trans hd'
          exact hne rfl
        rw [hafter, hlayout hmem]
      refine ⟨fun he => ?_, hsame c⟩
      obtain ⟨d, hd, _⟩ := hrelaid.before he
      cases he.symm.trans (hsame d hd)
      exact hd

/-! ## What loads that are under way rely on -/

/-- Classes of modules that are not loaded stay, and what is new belongs to later modules. -/
structure Keeps (v v' : Vault) : Prop where
  kept : ∀ r owner c, v.classes.entry? r = some (owner, c) →
    owner ≤ v.tokens.lastModule.toNat → (∀ m ∈ v.modules.toList, m.id.toNat ≠ owner) →
    v'.classes.entry? r = some (owner, c)
  later : ∀ r owner c, v'.classes.entry? r = some (owner, c) →
    v.classes.entry? r = some (owner, c) ∨ v.tokens.lastModule.toNat < owner
  modules : ∀ m ∈ v'.modules.toList, m ∈ v.modules.toList ∨ v.tokens.lastModule.toNat < m.id.toNat
  tokens : v.tokens.lastModule.toNat ≤ v'.tokens.lastModule.toNat

/-- What leaves classes, modules and numbers alone keeps all that there is to keep. -/
theorem Keeps.of_eq (hclasses : v'.classes = v.classes) (hmodules : v'.modules = v.modules)
    (htokens : v'.tokens = v.tokens) : v.Keeps v' := by
  refine ⟨?_, ?_, ?_, ?_⟩
  · intro r owner c he _ _
    rw [hclasses, he]
  · intro r owner c he
    rw [hclasses] at he
    exact Or.inl he
  · intro m hm
    rw [hmodules] at hm
    exact Or.inl hm
  · exact Nat.le_of_eq (by rw [htokens])

theorem Keeps.refl (v : Vault) : v.Keeps v := .of_eq rfl rfl rfl

/-- What is kept twice is kept. -/
theorem Keeps.trans (h₁₂ : v₁.Keeps v₂) (h₂₃ : v₂.Keeps v₃) : v₁.Keeps v₃ := by
  have htokens := h₁₂.tokens
  refine ⟨?_, ?_, ?_, Nat.le_trans htokens h₂₃.tokens⟩
  · intro r owner c he hle hfree
    refine h₂₃.kept r owner c (h₁₂.kept r owner c he hle hfree) (Nat.le_trans hle htokens) ?_
    intro m hm heq
    rcases h₁₂.modules m hm with hm | hlater
    · exact hfree m hm heq
    · -- a module that came in between has a later number
      omega
  · intro r owner c he
    rcases h₂₃.later r owner c he with he | hlater
    · exact h₁₂.later r owner c he
    · exact Or.inr (Nat.lt_of_le_of_lt htokens hlater)
  · intro m hm
    rcases h₂₃.modules m hm with hm | hlater
    · exact h₁₂.modules m hm
    · exact Or.inr (Nat.lt_of_le_of_lt htokens hlater)

/-- The stages of a load keep what was there before the module got its number. -/
theorem Keeps.trans_private (h₁₂ : v₁.Keeps v₂) (hid : v₁.tokens.lastModule.toNat < id.toNat)
    (h₂₃ : Private id v₂ v₃) : v₁.Keeps v₃ := by
  have hmodules : v₃.modules = v₂.modules := by rw [h₂₃.rest]
  refine ⟨?_, ?_, ?_, ?_⟩
  · intro r owner c he hle hfree
    exact (h₂₃.entries r owner c (by omega)).2 (h₁₂.kept r owner c he hle hfree)
  · intro r owner c he
    by_cases howner : owner = id.toNat
    · exact Or.inr (by omega)
    · exact h₁₂.later r owner c ((h₂₃.entries r owner c howner).1 he)
  · rw [hmodules]
    exact h₁₂.modules
  · rw [h₂₃.lastModule]
    exact h₁₂.tokens

/-- Granting numbers keeps all that there is to keep. -/
theorem Keeps.grant {tokens : TokenCounter}
    (hmodule : v.tokens.lastModule.toNat ≤ tokens.lastModule.toNat) : v.Keeps { v with tokens } :=
  ⟨fun _ _ _ he _ _ => he, fun _ _ _ he => Or.inl he, fun _ hm => Or.inl hm, hmodule⟩

/-- A module that was loaded later may be added. -/
theorem Keeps.push (hk : v.Keeps v') {m : Module}
    (hlater : v.tokens.lastModule.toNat < m.id.toNat) :
    v.Keeps { v' with modules := v'.modules.push m } := by
  refine ⟨hk.kept, hk.later, fun m' hm' => ?_, hk.tokens⟩
  have hcases : m' ∈ v'.modules.toList ∨ m' = m := by simpa using hm'
  rcases hcases with hold | rfl
  · exact hk.modules m' hold
  · exact Or.inr hlater

/-- Modules may be forgotten, as long as their classes stay. -/
theorem Keeps.forget {modules : Array Module} (hmodules : modules.toList ⊆ v.modules.toList) :
    v.Keeps { v with modules } :=
  ⟨fun _ _ _ he _ _ => he, fun _ _ _ he => Or.inl he, fun _ hm => Or.inl (hmodules hm),
    Nat.le_refl _⟩

/-- A module is released that is loaded or that came later. -/
theorem Keeps.release (hk : v.Keeps v') (hs : v'.classes.Sound)
    (hid : (∃ m ∈ v.modules.toList, m.id = id) ∨ v.tokens.lastModule.toNat < id.toNat) :
    v.Keeps (v'.release id) := by
  obtain ⟨hd, _⟩ := removeOwner_spec hs id.toNat
  refine ⟨?_, ?_, hk.modules, hk.tokens⟩
  · intro r owner c he hle hfree
    have hafter := hk.kept r owner c he hle hfree
    have hne : owner ≠ id.toNat := by
      rcases hid with ⟨m, hm, rfl⟩ | hlater
      · exact (hfree m hm).symm
      · omega
    exact hd.entry?_kept hne hafter
  · intro r owner c he
    exact hk.later r owner c (hd.entry?_of_kept he).2

end VaultKernel.Vault
