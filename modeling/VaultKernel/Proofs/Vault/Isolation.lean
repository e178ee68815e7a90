import VaultKernel.Proofs.Vault.CoreClasses
import VaultKernel.Proofs.Vault.LoadRenaming

/-!
# What a load depends on

The load of an image without dependencies depends on the image, on the configuration of the vault
and on the native registry. Whatever other modules, classes, objects and frames two vaults hold, it
fails in both of them with the same error, or it yields the same module up to a renaming: this is
`load_isolated`. The renaming exchanges the handles and numbers that the two vaults give out next,
so it is known before the load begins (`exists_twins`).
-/

namespace VaultKernel.Vault

open Arena Failure

variable {v v' : Vault} {id id' : ModuleId} {tokens tokens' : TokenCounter}

/-! ## Before the load -/

/-- The predefined classes are the same in all reachable vaults. -/
theorem Reachable.class?_predefined (hv : v.Reachable) (hv' : v'.Reachable) (t : CoreType) :
    ∃ c, v.class? t.ref = some c ∧ v'.class? t.ref = some c ∧ c.layout.isSome := by
  obtain ⟨state, hstate, hinstalled⟩ := hv.installed
  obtain ⟨state', hstate', hinstalled'⟩ := hv'.installed
  cases hstate.symm.trans hstate'
  obtain ⟨c, hc, hclass, hlayout⟩ := hinstalled t
  obtain ⟨c', hc', hclass', _⟩ := hinstalled' t
  cases hc.symm.trans hc'
  exact ⟨c, hclass, hclass', hlayout⟩

/-- The handles of the predefined classes and the upcoming ones are all different. -/
theorem Sound.nodup_handles (hs : v.Sound) (n : Nat) :
    (CoreType.all.map CoreType.ref ++ v.classes.upcoming n).Nodup := by
  have hcore : (CoreType.all.map CoreType.ref).Nodup := by decide
  refine List.Nodup.append hcore (nodup_upcoming hs.arena n) fun r hr hupcoming => ?_
  obtain ⟨t, _, rfl⟩ := List.mem_map.1 hr
  obtain ⟨c, he, _⟩ := hs.predefined t
  rw [entry?_of_mem_upcoming hs.arena hupcoming] at he
  cases he

/-- The handles that two vaults give out next can be exchanged. -/
theorem exists_perm_upcoming (hs : v.Sound) (hs' : v'.Sound) (n : Nat) :
    ∃ g : Equiv.Perm ClassRef, (∀ t : CoreType, g t.ref = t.ref) ∧
      v'.classes.upcoming n = (v.classes.upcoming n).map g := by
  obtain ⟨g, hg⟩ := exists_perm_map_eq (hs.nodup_handles n) (hs'.nodup_handles n) (by
    rw [List.length_append, List.length_append, length_upcoming, length_upcoming])
  rw [List.map_append] at hg
  obtain ⟨hcore, hupcoming⟩ := List.append_inj hg (by simp)
  refine ⟨g, fun t => ?_, hupcoming.symm⟩
  rw [List.map_map] at hcore
  exact List.map_inj_left.1 hcore t t.mem_all

/-- Class numbers are exchanged by a shift. -/
def shift (d : UInt16) : Equiv.Perm UInt16 where
  toFun k := k + d
  invFun k := k - d
  left_inv k := UInt16.add_sub_cancel k d
  right_inv k := UInt16.sub_add_cancel k d

/-- A number is shifted by what the two vaults differ in. -/
theorem shift_add (last last' k : UInt16) : shift (last' - last) (last + k) = last' + k := by
  show last + k + (last' - last) = last' + k
  rw [UInt16.add_comm last k, UInt16.add_assoc, UInt16.add_comm last, UInt16.sub_add_cancel,
    UInt16.add_comm]

/-- A new module number is neither zero nor the number of the runtime. -/
theorem Sound.granted_gt (hs : v.Sound) (h : v.tokens.nextModule? = some (id, tokens)) :
    1 < id.toNat := by
  have hcore : 1 ≤ v.tokens.lastModule.toNat := hs.core
  have hid := (Classes.nextModule?_eq_some h).1
  omega

/-- When a load begins, the renaming is known that will relate the modules. -/
theorem exists_twins (hv : v.Reachable) (hv' : v'.Reachable) (hconfig : v'.config = v.config)
    (hregistry : v.registry.Interchangeable v'.registry)
    (hgrant : v.tokens.nextModule? = some (id, tokens))
    (hgrant' : v'.tokens.nextModule? = some (id', tokens')) (n : Nat) :
    ∃ ρ : Renaming, ρ.modules id = id' ∧ ∀ name strings loading loading',
      Twins ρ n { id, name, strings } { v with tokens, loading }
        { v' with tokens := tokens', loading := loading' } := by
  obtain ⟨g, hcore, hupcoming⟩ :=
    exists_perm_upcoming hv.sound hv'.sound (min n (65535 - v.tokens.lastClass.toNat))
  have hid := hv.sound.granted_gt hgrant
  have hid' := hv'.sound.granted_gt hgrant'
  have hne : ∀ k : ModuleId, 1 < k.toNat → CoreType.owner ≠ k ∧ k ≠ 0 := by
    refine fun k hk => ⟨?_, ?_⟩
    · rintro rfl
      exact absurd hk (by decide)
    · rintro rfl
      exact absurd hk (by decide)
  refine ⟨⟨g, Equiv.swap id id', shift (v'.tokens.lastClass - v.tokens.lastClass), hcore,
    Equiv.swap_apply_of_ne_of_ne (hne id hid).1 (hne id' hid').1⟩, Equiv.swap_apply_left id id',
    fun name strings loading loading' => ?_⟩
  -- there are no more classes than words of 16 bits, so there is room for them twice
  have hroom : v.classes.slots.size + min n (65535 - v.tokens.lastClass.toNat) ≤ 4294967296 := by
    have hle := hv.sound.slots_le
    have hlt := v.tokens.lastClass.toNat_lt
    omega
  have hroom' : v'.classes.slots.size + min n (65535 - v.tokens.lastClass.toNat) ≤ 4294967296 := by
    have hle := hv'.sound.slots_le
    have hlt := v'.tokens.lastClass.toNat_lt
    omega
  have hlast : tokens.lastClass = v.tokens.lastClass := by
    obtain ⟨_, rfl⟩ := Classes.nextModule?_eq_some hgrant
    rfl
  rw [← hlast] at hroom hroom' hupcoming
  refine ⟨⟨hv.sound.arena, hv'.sound.arena, hroom, hroom', hupcoming, fun t => ?_,
    by simp [Module.ownClasses]⟩, fun k => ?_, hconfig, hregistry, rfl, (hne id hid).2, ?_⟩
  · obtain ⟨c, hc, hc', hlayout⟩ := hv.class?_predefined hv' t
    exact ⟨c, c, hc, hc', hlayout, rfl⟩
  · obtain ⟨_, rfl⟩ := Classes.nextModule?_eq_some hgrant
    obtain ⟨_, rfl⟩ := Classes.nextModule?_eq_some hgrant'
    exact shift_add v.tokens.lastClass v'.tokens.lastClass k
  · show Equiv.swap id id' id ≠ 0
    rw [Equiv.swap_apply_left]
    exact (hne id' hid').2

/-! ## The load -/

/-- Two vaults hold the same module up to a renaming. -/
structure SameModule (ρ : Renaming) (m : Module) (v v' : Vault) : Prop where
  listed : v.module? m.id = some m
  listed' : v'.module? (ρ.modules m.id) = some (m.rename ρ)
  classes : ∀ r ∈ m.ownClasses, ∃ c, v.class? r = some c ∧
    v'.class? (ρ.classes r) = some (c.rename ρ)

/-- What is read of an image without dependencies joins the loaded modules. -/
theorem Begins.listed {bytes : Wire.Bytes} {image : ModuleImage} {m m' : Module} {w u : Vault}
    {resolve : Resolver} (hb : v.Begins bytes image m w) (hs : v.Sound)
    (hdependencies : image.dependencies = [])
    (hread : Run.readModule resolve m image w = .ok m' u) (loading : List String) :
    ({ u with modules := u.modules.push m', loading } : Vault).module? m'.id = some m' := by
  have hstubbed := hb.stubbed hs (R := fun _ => True) trivial fun _ _ _ _ => trivial
  have hrequests : ∀ e version m₁ w₁, Run.Requests resolve m image w e version m₁ w₁ → w₁.Sound →
      True → resolve.Serves (fun _ _ => True) m₁ e.name version w₁ := by
    intro e _ _ _ hrequest
    have hmem := hrequest.mem
    rw [hdependencies] at hmem
    cases hmem
  have hspec := readModule_spec (fun _ _ _ _ _ => trivial) hstubbed image hrequests
  rw [hread] at hspec
  exact (hspec.1.completed loading).2.listed

/-- Two vaults grant module numbers, or one of them has none left. -/
theorem grantModuleId_agrees (v v' : Vault) :
    Agrees Exhaustion
      (fun id w id' w' => ∃ tokens tokens', v.tokens.nextModule? = some (id, tokens) ∧
        v'.tokens.nextModule? = some (id', tokens') ∧ w = { v with tokens } ∧
        w' = { v' with tokens := tokens' })
      (Run.grantModuleId v) (Run.grantModuleId v') := by
  unfold Run.grantModuleId
  cases v.tokens.nextModule? with
  | none => exact .excusedLeft (Or.inl rfl)
  | some granted =>
      cases v'.tokens.nextModule? with
      | none => exact .excusedRight (Or.inl rfl)
      | some granted' => exact .done ⟨_, _, rfl, rfl, rfl, rfl⟩

/-- A load that has begun goes the same way in both vaults. -/
theorem loadNamed_agrees {bytes : Wire.Bytes} {image : ModuleImage} {m : Module} {ρ : Renaming}
    (hb : v.Begins bytes image m { v with tokens, loading := m.name :: v.loading })
    (hb' : v'.Begins bytes image (m.rename ρ)
      { v' with tokens := tokens', loading := m.name :: v'.loading })
    (hs : v.Sound) (hs' : v'.Sound) (hdependencies : image.dependencies = [])
    (h : Twins ρ (image.typeNames.length + 1) m
      { v with tokens, loading := m.name :: v.loading }
      { v' with tokens := tokens', loading := m.name :: v'.loading })
    (resolve resolve' : Resolver) :
    Agrees Exhaustion
      (fun k w k' w' => ∃ ρ m, k = m.id ∧ k' = ρ.modules m.id ∧ SameModule ρ m w w')
      (Run.loadNamed resolve m image { v with tokens })
      (Run.loadNamed resolve' (m.rename ρ) image { v' with tokens := tokens' }) := by
  have hread := readModule_twins hdependencies h resolve resolve'
  refine Agrees.bind (R := fun _ w _ w' =>
    w = { v with tokens, loading := m.name :: v.loading } ∧
      w' = { v' with tokens := tokens', loading := m.name :: v'.loading })
    (.done ⟨rfl, rfl⟩) fun _ w _ w' hw => ?_
  obtain ⟨rfl, rfl⟩ := hw
  generalize hrun : Run.readModule resolve m image _ = run at hread
  generalize hrun' : Run.readModule resolve' (m.rename ρ) image _ = run' at hread
  cases hread with
  | excusedLeft he => exact .excusedLeft he
  | excusedRight he => exact .excusedRight he
  | failed e => exact .failed e _ _
  | @done m₁ u _ u' hpaired =>
      obtain ⟨rfl, htwins⟩ := hpaired
      have hlisted := hb.listed hs hdependencies hrun (u.loading.erase m₁.name)
      have hlisted' := hb'.listed hs' hdependencies hrun' (u'.loading.erase m₁.name)
      refine .done ⟨ρ, m₁, rfl, rfl, hlisted, hlisted', fun r hr => ?_⟩
      obtain ⟨c, hc, hc', _⟩ := htwins.ownClass hr
      exact ⟨c, hc, hc'⟩

/-- A load goes the same way in both vaults, unless one runs out of numbers. -/
theorem loadImage_agrees (hv : v.Reachable) (hv' : v'.Reachable) (halive : v.disposed = none)
    (halive' : v'.disposed = none) (hconfig : v'.config = v.config)
    (hregistry : v.registry.Interchangeable v'.registry) {bytes : Wire.Bytes}
    (hdependencies : ∀ image, ModuleImage.decode bytes = .ok image → image.dependencies = [])
    (resolve resolve' : Resolver) :
    Agrees Exhaustion
      (fun k w k' w' => ∃ ρ m, k = m.id ∧ k' = ρ.modules m.id ∧ SameModule ρ m w w')
      (Run.loadImage resolve bytes v) (Run.loadImage resolve' bytes v') := by
  have hensure : v.ensureAlive = .ok () := by rw [ensureAlive, halive]; rfl
  have hensure' : v'.ensureAlive = .ok () := by rw [ensureAlive, halive']; rfl
  unfold Run.loadImage
  rw [ask_bind hensure, ask_bind hensure']
  cases hdecode : ModuleImage.decode bytes with
  | error e => exact .failed _ _ _
  | ok image =>
      dsimp only
      refine (grantModuleId_agrees v v').bind fun id w id' w' hgrant => ?_
      obtain ⟨tokens, tokens', hnext, hnext', rfl, rfl⟩ := hgrant
      cases hname : (Table.ofList (image.strings.map fun e => (e.index, e.text))).get?
          image.nameIndex with
      | none => exact .failed _ _ _
      | some name =>
          dsimp only
          have hfree : ({ v with tokens } : Vault).isLoading name = false := by
            simp [isLoading, hv.idle]
          have hfree' : ({ v' with tokens := tokens' } : Vault).isLoading name = false := by
            simp [isLoading, hv'.idle]
          rw [get_bind, get_bind, hfree, hfree']
          obtain ⟨ρ, rfl, htwins⟩ := exists_twins hv hv' hconfig hregistry hnext hnext'
            (image.typeNames.length + 1)
          have hb : v.Begins bytes image
              { id, name, strings := .ofList (image.strings.map fun e => (e.index, e.text)) }
              { v with tokens, loading := name :: v.loading } :=
            ⟨hdecode, hname, by simp [hv.idle], rfl, hnext, rfl⟩
          have hb' : v'.Begins bytes image
              (Module.rename ρ
                { id, name, strings := .ofList (image.strings.map fun e => (e.index, e.text)) })
              { v' with tokens := tokens', loading := name :: v'.loading } :=
            ⟨hdecode, hname, by simp [hv'.idle], rfl, hnext', rfl⟩
          exact loadNamed_agrees hb hb' hv.sound hv'.sound (hdependencies image hdecode)
            (htwins name _ _ _) resolve resolve'

/-- An image without dependencies is loaded in two vaults with one configuration and one registry,
which may have been asked different questions before and whose loader is steady. Unless a number
cannot be granted, both loads fail with the same error, or both yield the same module up to a
renaming. -/
theorem load_isolated (hv : v.Reachable) (hv' : v'.Reachable) (halive : v.disposed = none)
    (halive' : v'.disposed = none) (hconfig : v'.config = v.config) {registry : NativeRegistry}
    (hsteady : registry.loader.Steady) (hregistry : registry.Consulted v.registry)
    (hregistry' : registry.Consulted v'.registry) {bytes : Wire.Bytes}
    (hdependencies : ∀ image, ModuleImage.decode bytes = .ok image → image.dependencies = [])
    (resolve resolve' : Resolver)
    (hnumbers : ∀ e w, Run.loadImage resolve bytes v = .error e w → ¬ e.Exhaustion)
    (hnumbers' : ∀ e w, Run.loadImage resolve' bytes v' = .error e w → ¬ e.Exhaustion) :
    (∃ e w w', Run.loadImage resolve bytes v = .error e w ∧
      Run.loadImage resolve' bytes v' = .error e w') ∨
    ∃ ρ m w w', Run.loadImage resolve bytes v = .ok m.id w ∧
      Run.loadImage resolve' bytes v' = .ok (ρ.modules m.id) w' ∧ SameModule ρ m w w' := by
  have halike := hregistry.alike hsteady
  have hinterchangeable : v.registry.Interchangeable v'.registry :=
    ⟨halike.symm.trans (hregistry'.alike hsteady), halike.loader ▸ hsteady⟩
  have hagrees := loadImage_agrees hv hv' halive halive' hconfig hinterchangeable hdependencies
    resolve resolve'
  generalize hrun : Run.loadImage resolve bytes v = run at hagrees hnumbers ⊢
  generalize hrun' : Run.loadImage resolve' bytes v' = run' at hagrees hnumbers' ⊢
  cases hagrees with
  | excusedLeft he => exact absurd he (hnumbers _ _ rfl)
  | excusedRight he => exact absurd he (hnumbers' _ _ rfl)
  | failed e w w' => exact Or.inl ⟨e, w, w', rfl, rfl⟩
  | done hdone =>
      obtain ⟨ρ, m, rfl, rfl, hsame⟩ := hdone
      exact Or.inr ⟨ρ, m, _, _, rfl, rfl, hsame⟩

/-- A module is loaded in a new vault and in one where another module came and went and where the
registry was asked before. The slots and generations of the classes differ. -/
theorem load_isolated_reused :
    ∃ (bytes : Wire.Bytes) (v v' w w' : Vault) (ρ : Renaming) (m : Module),
    v.Reachable ∧ v'.Reachable ∧ Searcher.load {} bytes v = .ok 2 w ∧
      Searcher.load {} bytes v' = .ok 3 w' ∧ m.ownClasses = [⟨23, 0⟩, ⟨24, 0⟩] ∧
      (m.rename ρ).ownClasses = [⟨24, 1⟩, ⟨23, 1⟩] ∧ SameModule ρ m w w' := by
  obtain ⟨registry, asked, hsteady, hasked, hrun⟩ : ∃ registry asked : NativeRegistry,
      registry.loader.Steady ∧ registry.Consulted asked ∧ (create {} {}).toOption.any fun u =>
        (({ hollowImage "library" [] with
          typeNames := [⟨0, "library", "", "B"⟩]
          classes := [⟨0, 2, [], [], []⟩] } : ModuleImage).encode.toOption.any fun library =>
        ({ hollowImage "app" [] with
          typeNames := [⟨0, "app", "", "A"⟩]
          classes := [⟨0, 2, [], [], []⟩] } : ModuleImage).encode.toOption.any fun bytes =>
          let v := (Operation.useRegistry fun _ => registry).after u
          let v' := (Operation.useRegistry fun _ => asked).after
            ((Operation.disposeModule 2).after (stateAfter (Searcher.load {} library u)))
          v.disposed.isNone && v'.disposed.isNone && v'.config = v.config &&
            (ModuleImage.decode bytes).toOption.all (·.dependencies.isEmpty) &&
            answerOf? (Searcher.load {} bytes v) = some 2 &&
            answerOf? (Searcher.load {} bytes v') = some 3 &&
            ((stateAfter (Searcher.load {} bytes v)).module? 2).any
              (·.ownClasses = [⟨23, 0⟩, ⟨24, 0⟩]) &&
            ((stateAfter (Searcher.load {} bytes v')).module? 3).any
              (·.ownClasses = [⟨24, 1⟩, ⟨23, 1⟩])) :=
    ⟨{ loader := .ofTable [("host", [("now", 7)])] }, _, ⟨fun _ _ => rfl, fun _ _ _ => rfl⟩,
      .asked "host" "now" .unasked, by decide +kernel⟩
  obtain ⟨u, hcreated, hrun⟩ := (Option.any_eq_true _ _).1 hrun
  obtain ⟨library, _, hrun⟩ := (Option.any_eq_true _ _).1 hrun
  obtain ⟨bytes, _, hrun⟩ := (Option.any_eq_true _ _).1 hrun
  simp only [Bool.and_eq_true, Option.isNone_iff_eq_none, decide_eq_true_eq] at hrun
  obtain ⟨⟨⟨⟨⟨⟨⟨halive, halive'⟩, hconfig⟩, hdependencies⟩, hload⟩, hload'⟩, hown⟩, hown'⟩ := hrun
  have hsucceeds := eq_ok_of_answerOf? hload
  have hsucceeds' := eq_ok_of_answerOf? hload'
  have hindependent : ∀ image, ModuleImage.decode bytes = .ok image → image.dependencies = [] := by
    intro image himage
    rw [himage] at hdependencies
    exact List.isEmpty_iff.1 hdependencies
  have hv : Reachable ((Operation.useRegistry fun _ => registry).after u) :=
    ⟨{}, {}, u, toOption_eq_some.1 hcreated, .operate _ (.refl u)⟩
  have hv' : Reachable ((Operation.useRegistry fun _ => asked).after
      ((Operation.disposeModule 2).after (stateAfter (Searcher.load {} library u)))) :=
    ⟨{}, {}, u, toOption_eq_some.1 hcreated, .operate _ (.operate _ (reaches_load {} library u))⟩
  have hsame := load_isolated hv hv' halive halive' hconfig hsteady .unasked hasked hindependent
    (Searcher.resolve {})
    (Searcher.resolve {}) (fun e w h => nomatch hsucceeds.symm.trans h)
    fun e w h => nomatch hsucceeds'.symm.trans h
  rcases hsame with ⟨e, w, w', h, _⟩ | ⟨ρ, m, w, w', h, h', hsame⟩
  · cases hsucceeds.symm.trans h
  · obtain ⟨hid, rfl⟩ := EStateM.Result.ok.inj (h.symm.trans hsucceeds)
    obtain ⟨hid', rfl⟩ := EStateM.Result.ok.inj (h'.symm.trans hsucceeds')
    rw [← hid, hsame.listed] at hown
    rw [← hid', hsame.listed'] at hown'
    exact ⟨bytes, _, _, _, _, ρ, m, hv, hv', hsucceeds, hsucceeds', of_decide_eq_true hown,
      of_decide_eq_true hown', hsame⟩

end VaultKernel.Vault
