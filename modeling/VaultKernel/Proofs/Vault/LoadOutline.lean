import VaultKernel.Proofs.Vault.Finishing

/-!
# How a load goes

A load is refused at once, finds its module among those that are being loaded, or begins. One that
begins runs the stages and ends with a module more, or with everything removed that is stored under
the number of the module. `loadImage_outline` says so once, with the failure and the vault of each
way to end; whatever holds of loads is read off it.
-/

namespace VaultKernel

open Arena Classes

/-- The name in the header of an image. -/
def ModuleImage.name? (image : ModuleImage) : Option String :=
  (Table.ofList (image.strings.map fun e => (e.index, e.text))).get? image.nameIndex

/-- A failure that is not a cycle. -/
def Failure.Plain (e : Failure) : Prop := ∀ n, e ≠ .dependencyCycle n

/-- A fatal failure is no cycle. -/
theorem Failure.plain_fatal (cause : Fatal) : (Failure.fatal cause).Plain := by
  intro n h
  cases h

/-- A failed resolution is no cycle. -/
theorem Failure.plain_unresolved (what : Unresolved) : (Failure.unresolved what).Plain := by
  intro n h
  cases h

namespace Vault

open Failure

variable {v w : Vault} {m : Module} {image : ModuleImage} {bytes : Wire.Bytes}

/-- A load that begins: the module `m` has its number, its name and its strings, and the vault `w`
counts it among those that are being loaded. -/
structure Begins (v : Vault) (bytes : Wire.Bytes) (image : ModuleImage) (m : Module) (w : Vault) :
    Prop where
  decoded : ModuleImage.decode bytes = .ok image
  named : image.name? = some m.name
  fresh : m.name ∉ v.loading
  bare : m = { id := m.id, name := m.name, strings := m.strings }
  granted : v.tokens.nextModule? = some (m.id, w.tokens)
  begun : w = { v with tokens := w.tokens, loading := m.name :: v.loading }

/-- The numbers after at most one more module got one. -/
def Grants (v : Vault) (tokens : TokenCounter) : Prop :=
  tokens = v.tokens ∨ ∃ id, v.tokens.nextModule? = some (id, tokens)

/-- Why a load is refused at once. -/
inductive Refuses (v : Vault) : Failure → Prop where
  | disposed : v.disposed.isSome → Refuses v (.fatal (.vaultDisposed v.config.name))
  | malformed (error : Wire.Error) : Refuses v (.fatal (.imageRejected error))
  | exhausted : v.tokens.nextModule? = none → Refuses v (.fatal .moduleIdsExhausted)
  | nameless (what : Unresolved) : Refuses v (.unresolved what)

/-- A refusal is no cycle. -/
theorem Refuses.plain {e : Failure} (h : v.Refuses e) : e.Plain := by
  cases h with
  | nameless what => exact plain_unresolved what
  | _ => exact plain_fatal _

/-- The ways in which a load can go. -/
inductive Outline (resolve : Resolver) (bytes : Wire.Bytes) (v : Vault) :
    EStateM.Result Failure Vault ModuleId → Prop where
  | refused {e : Failure} {tokens : TokenCounter} : v.Refuses e → v.Grants tokens →
      Outline resolve bytes v (.error e { v with tokens })
  | cyclic {image : ModuleImage} {name : String} {tokens : TokenCounter} :
      ModuleImage.decode bytes = .ok image → image.name? = some name → name ∈ v.loading →
      v.Grants tokens → Outline resolve bytes v (.error (.dependencyCycle name) { v with tokens })
  | completed {image : ModuleImage} {m m' : Module} {w v' : Vault} :
      v.Begins bytes image m w → Run.readModule resolve m image w = .ok m' v' →
      Outline resolve bytes v (.ok m'.id
        { v' with modules := v'.modules.push m', loading := v'.loading.erase m'.name })
  | abandoned {image : ModuleImage} {m : Module} {w v' : Vault} {e : Failure} :
      v.Begins bytes image m w → Run.readModule resolve m image w = .error e v' →
      Outline resolve bytes v
        (.error e ({ v' with loading := v'.loading.erase m.name }.release m.id))

/-- A module number that is granted is the next one. -/
theorem grantModuleId_eq_ok {id : ModuleId} (h : Run.grantModuleId v = .ok id w) :
    ∃ tokens, v.tokens.nextModule? = some (id, tokens) ∧ w = { v with tokens } := by
  unfold Run.grantModuleId at h
  split at h
  · next hnext =>
      cases h
      exact ⟨_, hnext, rfl⟩
  · cases h

/-- Without a module number a load is refused. -/
theorem grantModuleId_eq_error {e : Failure} (h : Run.grantModuleId v = .error e w) :
    v.Refuses e ∧ w = v := by
  unfold Run.grantModuleId at h
  split at h
  · cases h
  · next hnone =>
      cases h
      exact ⟨.exhausted hnone, rfl⟩

/-- A load that has begun ends in one of the ways listed. -/
theorem loadNamed_outline (resolve : Resolver) {tokens : TokenCounter}
    (hb : v.Begins bytes image m { v with tokens, loading := m.name :: v.loading }) :
    Outline resolve bytes v (Run.loadNamed resolve m image { v with tokens }) := by
  refine of_bind (P := Outline resolve bytes v) (fun _ w hbegin => ?_) fun _ _ hbegin => ?_
  · cases hbegin
    dsimp only
    split
    · next hread => exact .completed hb hread
    · next hread => exact .abandoned hb hread
  · cases hbegin

/-- Every load goes one of the ways listed. -/
theorem loadImage_outline (resolve : Resolver) (bytes : Wire.Bytes) (v : Vault) :
    Outline resolve bytes v (Run.loadImage resolve bytes v) := by
  have hself : v.Grants v.tokens := Or.inl rfl
  refine of_bind (P := Outline resolve bytes v) (fun _ w hask => ?_) fun e w hask => ?_
  · obtain ⟨_, rfl⟩ := ask_eq_ok hask
    cases hdecode : ModuleImage.decode bytes with
    | error e => exact .refused (.malformed e) hself
    | ok image =>
        refine of_bind (P := Outline resolve bytes w) (fun id w' hgrant => ?_) fun e w' hgrant => ?_
        · obtain ⟨tokens, hnext, rfl⟩ := grantModuleId_eq_ok hgrant
          have hgrants : w.Grants tokens := Or.inr ⟨id, hnext⟩
          cases hname : (Table.ofList (image.strings.map fun e => (e.index, e.text))).get?
              image.nameIndex with
          | none => exact .refused (.nameless _) hgrants
          | some name =>
              refine of_bind (P := Outline resolve bytes w) (fun u _ hget => ?_) fun _ _ hget => ?_
              · cases hget
                cases hloading : ({ w with tokens } : Vault).isLoading name with
                | true => exact .cyclic hdecode hname (by simpa [isLoading] using hloading) hgrants
                | false =>
                    refine loadNamed_outline resolve ⟨hdecode, hname, ?_, rfl, hnext, rfl⟩
                    simpa [isLoading] using hloading
              · cases hget
        · obtain ⟨hrefuses, rfl⟩ := grantModuleId_eq_error hgrant
          exact .refused hrefuses hself
  · obtain ⟨halive, rfl⟩ := ask_eq_error hask
    unfold ensureAlive at halive
    split at halive
    · next hdisposed =>
        cases halive
        exact .refused (.disposed hdisposed) hself
    · cases halive

/-! ## Numbers -/

/-- Numbers are only ever granted. -/
theorem Grants.le {tokens : TokenCounter} (hg : v.Grants tokens) :
    v.tokens.lastModule.toNat ≤ tokens.lastModule.toNat ∧
      v.tokens.lastClass.toNat ≤ tokens.lastClass.toNat := by
  rcases hg with rfl | ⟨id, hgrant⟩
  · exact ⟨Nat.le_refl _, Nat.le_refl _⟩
  · obtain ⟨hid, rfl⟩ := nextModule?_eq_some hgrant
    exact ⟨by simp only; omega, Nat.le_refl _⟩

/-- A new module has a later number than all others. -/
theorem Begins.later (hb : v.Begins bytes image m w) :
    v.tokens.lastModule.toNat < m.id.toNat ∧ w.tokens.lastModule = m.id := by
  obtain ⟨hid, htokens⟩ := nextModule?_eq_some hb.granted
  exact ⟨by omega, by rw [htokens]⟩

/-- A load that begins takes at most one number for its module. -/
theorem Begins.grants (hb : v.Begins bytes image m w) : v.Grants w.tokens :=
  Or.inr ⟨m.id, hb.granted⟩

/-- No class and no module has the new number. -/
theorem Begins.unowned (hb : v.Begins bytes image m w) (hs : v.Sound) {r : ClassRef} {owner : Nat}
    {c : Class} (he : v.classes.entry? r = some (owner, c)) : owner ≠ m.id.toNat := by
  have hle := (hs.entries r owner c he).2.2.2
  have hlt := hb.later.1
  omega

/-- A load begins without classes. -/
theorem Begins.stubbed (hb : v.Begins bytes image m w) (hs : v.Sound) {R : Vault → Prop} (hR : R w)
    (hundisturbed : ∀ w w', R w → Private m.id w w' → R w') : Stubbed R m w := by
  obtain ⟨hlt, hlast⟩ := hb.later
  have hclasses : w.classes = v.classes := by rw [hb.begun]
  have hmodules : w.modules = v.modules := by rw [hb.begun]
  have hsound : w.Sound := by
    rw [hb.begun]
    exact (hs.grant hb.grants.le.1 hb.grants.le.2).congr rfl rfl rfl
  have hnone : m.ownClasses = [] := by
    rw [hb.bare]
    rfl
  have hrefs : m.refs = [] := by
    rw [hb.bare]
    rfl
  have hnumber : CoreType.owner.toNat < m.id.toNat ∧
      m.id.toNat ≤ w.tokens.lastModule.toNat :=
    ⟨Nat.lt_of_le_of_lt hs.core hlt, Nat.le_of_eq (by rw [hlast])⟩
  refine ⟨⟨⟨hundisturbed, hR, hsound, hnumber, ?_, ?_, ?_, ?_⟩, ?_⟩, ?_, hrefs⟩
  · intro m' hm' heq
    rw [hmodules] at hm'
    have hle := (hs.numbers m' hm').2
    rw [heq] at hle
    omega
  · intro r
    rw [hnone, hclasses, ownerOf?_eq_some_iff]
    refine ⟨fun hr => by simp at hr, ?_⟩
    rintro ⟨c, he⟩
    exact absurd rfl (hb.unowned hs he)
  · exact fun r c hr => by simp [hnone] at hr
  · exact fun r hr => by simp [hrefs] at hr
  · exact fun r c hr => by simp [hnone] at hr
  · exact fun r c hr => by simp [hnone] at hr

end Vault

end VaultKernel
