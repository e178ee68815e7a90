import Mathlib.Data.List.Infix
import VaultKernel.Proofs.Class.Layouts
import VaultKernel.Proofs.Vault.Reachable

/-!
# Chronicles

A chronicle lists what a vault was since it was created, newest first. From each vault to the next
one leads a single change (`Step`), also within a load, where classes come and go that no finished
load ever shows. `Reaches.steps` says that public operations are made of such changes; for loads,
`Admits.loadImage` says so of any relation that their own changes have. Whatever was a class at one
time of a chronicle is related to what is a class at a later time by `Succeeds`.
-/

namespace VaultKernel.Vault

open Relation Arena Classes

variable {v v' w : Vault} {id : ModuleId} {past : List Vault}

/-- A single change of a vault. -/
inductive Step : Vault → Vault → Prop where
  | tended {v v' : Vault} : v.Tended v' → Step v v'
  | registered (v : Vault) (registry : NativeRegistry) : Step v { v with registry }
  /-- A load gets a number for its module. -/
  | granted {v : Vault} {id : ModuleId} {tokens : TokenCounter} :
      v.tokens.nextModule? = some (id, tokens) → Step v { v with tokens }
  | announced (v : Vault) (name : String) : Step v { v with loading := name :: v.loading }
  /-- A stage of a load changes the classes of its module. -/
  | staged {v v' : Vault} {id : ModuleId} : Private id v v' → Step v v'
  | joined (v : Vault) (m : Module) :
      Step v { v with modules := v.modules.push m, loading := v.loading.erase m.name }
  | withdrawn (v : Vault) (name : String) : Step v { v with loading := v.loading.erase name }
  | forgotten (v : Vault) (keep : Module → Bool) :
      Step v { v with modules := v.modules.filter keep }
  | released (v : Vault) (id : ModuleId) : Step v (v.release id)
  | swept (v : Vault) :
      Step v { v with
        heap := v.heap.freeMortals.2
        frames := (v.frames.removeOwner Frame.owner).2
        systemFrames := [] }
  | closed (v : Vault) : Step v { v with disposed := some v.report }

/-- Any number of changes. -/
def Steps : Vault → Vault → Prop := ReflTransGen Step

/-- Rows of changes can follow one another. -/
theorem Steps.trans {v₁ v₂ v₃ : Vault} (h₁₂ : v₁.Steps v₂) (h₂₃ : v₂.Steps v₃) : v₁.Steps v₃ :=
  ReflTransGen.trans h₁₂ h₂₃

/-- Changes of objects and frames are changes of the vault. -/
theorem Tends.steps (h : v.Tends v') : v.Steps v' := by
  induction h with
  | refl => exact ReflTransGen.refl
  | tail _ hstep ih => exact ih.tail (.tended hstep)

/-! ## Public operations -/

/-- Disposing of a module is a row of changes. -/
theorem Steps.disposeModule (v : Vault) (id : ModuleId) :
    v.Steps (stateAfter (Run.disposeModule id v)) := by
  refine ends_iff.1 ?_
  unfold Run.disposeModule
  refine Ends.get ?_
  cases v.module? id with
  | none => exact ReflTransGen.refl
  | some m => exact (ReflTransGen.single (.forgotten v _)).tail (.released _ id)

/-- The modules of a vault are removed one after another. -/
theorem Steps.releaseAll (v : Vault) (ms : List Module) :
    v.Steps (ms.foldr (fun m (w : Vault) => w.release m.id) v) := by
  induction ms with
  | nil => exact ReflTransGen.refl
  | cons m ms ih => exact ih.tail (.released _ m.id)

/-- Clearing a vault is a row of changes, one for each module. -/
theorem Steps.cleared (v : Vault) : v.Steps v.cleared := by
  have hnone : v.modules.filter (fun _ => false) = #[] := by simp [Array.filter_eq_empty_iff]
  have hforgotten : v.Step { v with modules := #[] } := hnone ▸ Step.forgotten v fun _ => false
  have hreleased := Steps.releaseAll { v with modules := #[] } v.modules.toList
  rw [Array.foldr_toList] at hreleased
  exact (ReflTransGen.single hforgotten).trans (hreleased.tail (.swept _))

/-- Disposing of a vault is a row of changes. -/
theorem Steps.dispose (v : Vault) : v.Steps (stateAfter (Run.dispose v)) :=
  ends_iff.1 (dispose_ends (fun _ => ReflTransGen.refl) fun _ => (Steps.cleared v).tail (.closed _))

/-- Every operation is a row of changes. -/
theorem Steps.operate (v : Vault) (operation : Operation) : v.Steps (operation.after v) := by
  rcases after_cases operation v with htends | ⟨registry, hafter⟩ | ⟨id, rfl⟩ | rfl
  · exact htends.steps
  · rw [hafter]
    exact ReflTransGen.single (.registered v registry)
  · exact Steps.disposeModule v id
  · exact Steps.dispose v

/-! ## Loads -/

/-- A change that a load makes itself, outside of its resolver. -/
inductive LoadStep : Vault → Vault → Prop where
  | granted {v : Vault} {id : ModuleId} {tokens : TokenCounter} :
      v.tokens.nextModule? = some (id, tokens) → LoadStep v { v with tokens }
  | announced (v : Vault) (name : String) : LoadStep v { v with loading := name :: v.loading }
  | staged {v v' : Vault} {id : ModuleId} : Private id v v' → LoadStep v v'
  | joined (v : Vault) (m : Module) :
      LoadStep v { v with modules := v.modules.push m, loading := v.loading.erase m.name }
  | withdrawn (v : Vault) (name : String) :
      LoadStep v { v with loading := v.loading.erase name }
  | released (v : Vault) (id : ModuleId) : LoadStep v (v.release id)

/-- The changes of loads are changes of the vault. -/
theorem LoadStep.step (h : v.LoadStep w) : v.Step w := by
  cases h with
  | granted hgrant => exact .granted hgrant
  | announced name => exact .announced v name
  | staged h => exact .staged h
  | joined m => exact .joined v m
  | withdrawn name => exact .withdrawn v name
  | released id => exact .released v id

/-- A relation that the changes of loads have, one after another. -/
structure Admits (R : Vault → Vault → Prop) : Prop where
  refl : ∀ v, R v v
  trans : ∀ {u v w}, R u v → R v w → R u w
  step : ∀ {v w}, LoadStep v w → R v w

/-- Granting numbers is a change that loads make. -/
theorem Admits.grants {R : Vault → Vault → Prop} (hR : Admits R) {tokens : TokenCounter}
    (hg : v.Grants tokens) : R v { v with tokens } := by
  rcases hg with rfl | ⟨id, hgrant⟩
  · exact hR.refl v
  · exact hR.step (.granted hgrant)

/-- The beginning of a load is a change that loads make. -/
theorem Admits.begins {R : Vault → Vault → Prop} (hR : Admits R) {bytes : Wire.Bytes}
    {image : ModuleImage} {m : Module} (hb : v.Begins bytes image m w) : R v w := by
  rw [hb.begun]
  exact hR.trans (hR.grants hb.grants) (hR.step (.announced _ m.name))

/-- A relation that the changes of loads and of its resolver have holds across the stages of a
load. -/
theorem Admits.readModule {R : Vault → Vault → Prop} (hR : Admits R) {resolve : Resolver}
    (hresolve : resolve.Safe)
    (hrelated : ∀ name version (u : Vault), u.Sound → R u (stateAfter (resolve name version u)))
    (hs : v.Sound) {bytes : Wire.Bytes} {image : ModuleImage} {m : Module}
    (hb : v.Begins bytes image m w) :
    Ends (Run.readModule resolve m image w) (fun _ => R v) (R v) := by
  have hstaged : ∀ u u', R v u → Private m.id u u' → R v u' := fun _ _ hu h =>
    hR.trans hu (hR.step (.staged h))
  refine Ends.mono (readModule_spec (R := fun _ => R v) (fun _ => hstaged)
    (hb.stubbed hs (hR.begins hb) hstaged) image fun e version m' u _ hsound hu => ?_)
    (fun _ _ h => h.1.around) fun _ h => h.around.choose_spec
  -- what the resolver does in between is admitted as well
  refine ((hresolve e.name version u hsound).and
    (ends_iff.2 (hrelated e.name version u hsound))).mono (fun _ _ h => ?_) fun _ h => ?_
  · exact ⟨h.1.sound, h.1.keeps, hR.trans hu h.2⟩
  · exact ⟨h.1.sound, h.1.keeps, hR.trans hu h.2⟩

/-- A relation that the changes of loads and of its resolver have holds across a load. -/
theorem Admits.loadImage {R : Vault → Vault → Prop} (hR : Admits R) {resolve : Resolver}
    (hresolve : resolve.Safe)
    (hrelated : ∀ name version (u : Vault), u.Sound → R u (stateAfter (resolve name version u)))
    (hs : v.Sound) (bytes : Wire.Bytes) : R v (stateAfter (Run.loadImage resolve bytes v)) := by
  generalize hresult : Run.loadImage resolve bytes v = result
  have houtline := hresult ▸ loadImage_outline resolve bytes v
  cases houtline with
  | refused _ hg => exact hR.grants hg
  | cyclic _ _ _ hg => exact hR.grants hg
  | completed hb hread =>
      have hdone := hR.readModule hresolve hrelated hs hb
      rw [hread] at hdone
      exact hR.trans hdone (hR.step (.joined _ _))
  | @abandoned image m w v' e hb hread =>
      have hdone := hR.readModule hresolve hrelated hs hb
      rw [hread] at hdone
      exact hR.trans (hR.trans hdone (hR.step (.withdrawn _ m.name))) (hR.step (.released _ m.id))

/-- Rows of changes are a relation of this kind. -/
theorem Steps.admits : Admits Steps :=
  ⟨fun _ => ReflTransGen.refl, Steps.trans, fun h => ReflTransGen.single h.step⟩

/-- Everything that happens to a vault is a row of changes. -/
theorem Reaches.steps (h : v.Reaches w) (hs : v.Sound) : v.Steps w := by
  induction h with
  | refl => exact ReflTransGen.refl
  | operate operation _ ih => exact (ih hs).trans (Steps.operate _ operation)
  | load bytes hresolve hreaches ihresolve ih =>
      have hsafe : Resolver.Safe _ := fun name version u hu =>
        ends_iff.2 ((hresolve name version u).safe hu)
      exact (ih hs).trans
        (Steps.admits.loadImage hsafe (fun name version u hu => ihresolve name version u hu)
          (hreaches.safe hs).sound bytes)

/-! ## Chronicles -/

/-- What a vault was since it was created, newest first. -/
inductive Chronicle : List Vault → Prop where
  | created {config : VaultConfig} {registry : NativeRegistry} {v : Vault} :
      create config registry = .ok v → Chronicle [v]
  | stepped {v w : Vault} {past : List Vault} : v.Step w → Chronicle (v :: past) →
      Chronicle (w :: v :: past)

/-- A chronicle goes on with every row of changes. -/
theorem Chronicle.extend (h : Chronicle (v :: past)) (hsteps : v.Steps w) :
    ∃ earlier, Chronicle (w :: earlier) ∧ v :: past <:+ w :: earlier := by
  induction hsteps with
  | refl => exact ⟨past, h, List.suffix_refl _⟩
  | @tail u w _ hstep ih =>
      obtain ⟨earlier, hchronicle, hsuffix⟩ := ih
      exact ⟨u :: earlier, .stepped hstep hchronicle, hsuffix.trans (List.suffix_cons _ _)⟩

/-- Every public operation goes on with any chronicle of its vault. -/
theorem Reachable.chronicle_reaches (hv : v.Reachable) (h : Chronicle (v :: past))
    (hreaches : v.Reaches w) : ∃ earlier, Chronicle (w :: earlier) ∧ v :: past <:+ w :: earlier :=
  h.extend (hreaches.steps hv.sound)

/-- Every vault that there can be has a chronicle. -/
theorem Reachable.chronicle (hv : v.Reachable) : ∃ past, Chronicle (v :: past) := by
  obtain ⟨config, registry, v₀, hcreated, hreaches⟩ := hv
  obtain ⟨past, hchronicle, _⟩ :=
    (Chronicle.created hcreated).extend (hreaches.steps (sound_create hcreated))
  exact ⟨past, hchronicle⟩

/-! ## Classes of a chronicle -/

/-- What a load stores for itself keeps the stored classes in order. -/
theorem Private.stored (h : Private id v v') (hs : Stored v.tokens v.classes) :
    Stored v'.tokens v'.classes := by
  cases h with
  | withRegistry => exact hs
  | define _ _ hpos hle hgrant htoken howner hlayout =>
      exact hs.define hgrant howner (by rw [htoken]) hlayout hpos hle
  | changeClass _ hf => exact hs.modify hf
  | @layOut _ path hclimb =>
      have hrelaid := Relaid.foldl path.reverse v.classes
      refine hs.relaid hrelaid fun r hr => ?_
      exact hclimb.rooted_of_mem hrelaid hs.rooted (fun _ => List.mem_reverse.2)
        (List.mem_reverse.1 hr)

/-- What a load stores for itself keeps the numbers in order. -/
theorem Private.numbered (h : Private id v v') (hn : Numbered v.tokens v.classes) :
    Numbered v'.tokens v'.classes := by
  cases h with
  | withRegistry => exact hn
  | define hs hroom _ _ hgrant htoken => exact hn.define hs hroom hgrant (by rw [htoken])
  | changeClass _ hf => exact hn.modify fun c hc => (hf c hc).2.2.2
  | layOut => exact hn.relaid (Relaid.foldl _ _)

/-- What a load stores for itself builds layouts on those of parents only. -/
theorem Private.builds (h : Private id v v') : Builds v.classes v'.classes := by
  cases h with
  | withRegistry => exact .refl _
  | define hs hroom _ _ _ _ _ hlayout => exact .define hs hroom _ hlayout
  | changeClass _ hf => exact .modify fun c hc => (hf c hc).2.1
  | layOut hclimb => exact .layOut hclimb

/-- What a step does to classes and numbers. -/
theorem Step.classes_cases (h : v.Step w) :
    (w.tokens = v.tokens ∧ w.classes = v.classes) ∨
      (v.Grants w.tokens ∧ w.classes = v.classes) ∨ (∃ id, Private id v w) ∨
      ∃ id : ModuleId, w.tokens = v.tokens ∧ w.classes = (v.classes.removeOwner id.toNat).2 := by
  cases h with
  | tended h => exact Or.inl ⟨h.alike.tokens, h.alike.classes⟩
  | granted hgrant => exact Or.inr (Or.inl ⟨Or.inr ⟨_, hgrant⟩, rfl⟩)
  | staged h => exact Or.inr (Or.inr (Or.inl ⟨_, h⟩))
  | released id => exact Or.inr (Or.inr (Or.inr ⟨id, rfl, rfl⟩))
  | _ => exact Or.inl ⟨rfl, rfl⟩

/-- The invariant of the classes in a chronicle. -/
structure Coherent (v : Vault) : Prop where
  stored : Stored v.tokens v.classes
  numbered : Numbered v.tokens v.classes
  proper : v.classes.Proper

/-- A change keeps the invariant of the classes. -/
theorem Step.coherent (h : v.Step w) (hv : v.Coherent) : w.Coherent := by
  obtain ⟨hs, hn, hp⟩ := hv
  rcases h.classes_cases with
    ⟨htokens, hclasses⟩ | ⟨hg, hclasses⟩ | ⟨id, h⟩ | ⟨id, htokens, hclasses⟩
  · refine ⟨?_, ?_, ?_⟩ <;> simp only [htokens, hclasses] <;> assumption
  · refine ⟨?_, ?_, ?_⟩ <;> rw [hclasses]
    · exact hs.grant hg.le.1 hg.le.2
    · exact hn.mono hg.le.2 fun _ _ c he => ⟨c, he, rfl⟩
    · exact hp
  · exact ⟨h.stored hs, h.numbered hn, h.builds.proper hp⟩
  · refine ⟨?_, ?_, ?_⟩ <;> simp only [htokens, hclasses]
    · exact hs.removeOwner _
    · exact hn.removeOwner hs.arena _
    · exact (Builds.removeOwner hs.arena _).proper hp

/-- What is a class before a change is related to what is one after it. -/
theorem Step.succeeds (h : v.Step w) (hv : v.Coherent) :
    Succeeds v.tokens v.classes w.tokens w.classes := by
  rcases h.classes_cases with
    ⟨htokens, hclasses⟩ | ⟨hg, hclasses⟩ | ⟨id, h⟩ | ⟨id, htokens, hclasses⟩
  · rw [htokens, hclasses]
    exact .refl _ _
  · rw [hclasses]
    exact .grant _ hg.le.1 hg.le.2
  · exact h.succeeds
  · rw [htokens, hclasses]
    exact .removeOwner hv.stored _

/-- A change builds layouts on those of parents only. -/
theorem Step.builds (h : v.Step w) (hv : v.Coherent) : Builds v.classes w.classes := by
  rcases h.classes_cases with ⟨_, hclasses⟩ | ⟨_, hclasses⟩ | ⟨id, h⟩ | ⟨id, _, hclasses⟩
  · rw [hclasses]
    exact .refl _
  · rw [hclasses]
    exact .refl _
  · exact h.builds
  · rw [hclasses]
    exact .removeOwner hv.stored.arena _

/-- The invariant holds at every time of a chronicle. -/
theorem Chronicle.coherent (h : Chronicle (v :: past)) : v.Coherent := by
  generalize hvaults : v :: past = vaults at h
  induction h generalizing v past with
  | created hcreated =>
      cases hvaults
      have hinstalled := CoreType.install_spec (installed_create hcreated)
      exact ⟨hinstalled.toStored, hinstalled.numbered, hinstalled.built.proper⟩
  | stepped hstep _ ih =>
      cases hvaults
      exact hstep.coherent (ih rfl)

/-- What is a class in a vault of a chronicle was, or was not, one earlier in the chronicle. -/
theorem Chronicle.succeeds (h : Chronicle (v :: past)) {u : Vault} (hu : u ∈ v :: past) :
    u.Coherent ∧ Succeeds u.tokens u.classes v.tokens v.classes := by
  generalize hvaults : v :: past = vaults at h
  induction h generalizing v past with
  | created hcreated =>
      cases hvaults
      rw [List.mem_singleton.1 hu]
      exact ⟨(Chronicle.created hcreated).coherent, .refl _ _⟩
  | @stepped v' w past hstep hpast ih =>
      cases hvaults
      rcases List.mem_cons.1 hu with rfl | hu
      · exact ⟨(Chronicle.stepped hstep hpast).coherent, .refl _ _⟩
      · obtain ⟨hcoherent, hsucceeds⟩ := ih hu rfl
        exact ⟨hcoherent, hsucceeds.trans (hstep.succeeds hpast.coherent)⟩

end VaultKernel.Vault
