import VaultKernel.Proofs.Vault.Stages

/-!
# The end of a load

The last stages of a load give the module its own class, hand out its aspects, bind native methods
and lay the classes out. `Finished` is what they establish. The first statement to read is
`finishModule_spec`.
-/

namespace VaultKernel

open Arena Classes Vault

variable {R : Vault → Prop} {v : Vault} {m : Module} {linked : List ClassRef}

/-! ## The class of the runtime -/

/-- The class that every module gets is defined as one of the module's own. -/
theorem defineBootstrapper_spec (hd : Drafting R m linked v) :
    Ends (Run.defineBootstrapper m v) (fun m' v' => Drafting R m' linked v' ∧ m.Evolves m')
      (Stopped R m.id) := by
  unfold Run.defineBootstrapper
  refine (defineClass_spec hd.stopped _ _).bind fun p v' hp => ?_
  obtain ⟨c, classId, tokens, hnext, hc, rfl, rfl⟩ := hp
  have hdefined := hd.define hnext c (by rw [hc]) (by rw [hc]) (by rw [hc]) fun ok done => by
    rw [hc]
    exact Class.formed_stub _ _ _ (fun _ => rfl) ok done
  have hself := (allocate_spec hd.sound.arena hd.sound.hasRoom m.id.toNat c).entry?_self
  have hown : (v.classes.allocate m.id.toNat c).1 ∈
      (m.addOwn (v.classes.allocate m.id.toNat c).1).ownClasses := by
    rw [Module.ownClasses_addOwn]
    simp
  have hdone := hdefined.changeClass hown (fun _ _ _ => Iff.rfl) (f := fun c =>
    { c with parent := some CoreType.object.ref, flags := { c.flags with notCompleted := false } })
    fun d hd' => by
      have hformed := hdefined.formed _ d hown hd'
      refine ⟨rfl, rfl, rfl, ?_, hformed.fields, hformed.methods, fun hunresolved => ?_⟩
      · intro r hr
        cases hr
        exact hdefined.predefined_visible .object
      · obtain ⟨owner, he⟩ := get?_eq_some_iff.1 hd'
        cases he.symm.trans hself
        rw [hc] at hunresolved
        cases hunresolved
  exact ⟨hdone.withModule rfl rfl (List.Subset.refl _) hdone.referred, rfl, rfl, rfl⟩

/-! ## Aspects -/

/-- Attaching an aspect to an own class leaves the load where it is. -/
theorem attachOne_spec (hd : Drafting R m linked v) (aspect : Aspect) :
    Ends (m.attachOne aspect v.classes)
      (fun _ classes => Drafting R m linked { v with classes })
      fun classes => Stopped R m.id { v with classes } := by
  unfold Module.attachOne
  cases hfind : m.ownNamed? v.classes aspect.target.className with
  | none => exact hd
  | some ref =>
      have hown : ref ∈ m.ownClasses := List.mem_of_find?_eq_some hfind
      dsimp only
      cases hc : v.classes.get? ref with
      | none => exact hd
      | some c =>
          dsimp only
          by_cases hunresolved : c.flags.unresolved
          · rw [if_pos hunresolved]
            exact hd.stopped
          · rw [if_neg hunresolved]
            cases hattach : c.attach? aspect with
            | none => exact hd
            | some changed =>
                refine hd.changeClass hown (fun _ _ _ => Iff.rfl) fun c' hc' => ?_
                obtain rfl : c = c' := Option.some.inj (hc.symm.trans hc')
                obtain ⟨_, _, _, htoken, howner, hlayout⟩ := Class.attach?_frame hattach
                exact ⟨howner, htoken, hlayout, (hd.formed ref c hown hc).attach hattach⟩

/-- Attaching a row of aspects leaves the load where it is. -/
theorem attachAll_spec (hd : Drafting R m linked v) (aspects : List Aspect) :
    Ends (m.attachAll aspects v.classes)
      (fun _ classes => Drafting R m linked { v with classes })
      fun classes => Stopped R m.id { v with classes } := by
  induction aspects generalizing v with
  | nil => exact hd
  | cons aspect rest ih =>
      refine (attachOne_spec hd aspect).bind fun _ classes hclasses => ?_
      refine (ih hclasses).bind fun _ classes' hclasses' => ?_
      exact hclasses'

/-- Distributing the aspects leaves the load where it is. -/
theorem distribute_spec (hd : Drafting R m linked v) :
    Ends (Run.onClasses m.distribute v) (fun m' v' => Drafting R m' linked v' ∧ m.Evolves m')
      (Stopped R m.id) := by
  refine Ends.onClasses ((attachAll_spec hd m.aspects).bind fun rest classes hd' => ?_)
  exact ⟨hd'.withModule rfl rfl (List.Subset.refl _) hd'.referred, rfl, rfl, rfl⟩

/-- Checking a token changes nothing. -/
theorem checkToken_spec {E : Vault → Prop} (hv : E v) (ref : ClassRef) :
    Ends (Run.checkToken ref v) (fun _ v' => v' = v) E := by
  unfold Run.checkToken
  have hask : Ends (Run.ask (·.classOf ref) v) (fun _ v' => v' = v) E :=
    Ends.ask (fun _ _ => rfl) hv
  refine hask.bind fun c v' hv' => ?_
  subst v'
  cases c.token.isSet with
  | false => exact hv
  | true => rfl

/-! ## Native methods -/

/-- A load does not depend on the registry. -/
theorem Vault.Drafting.withRegistry (hd : Drafting R m linked v) (registry : NativeRegistry) :
    Drafting R m linked { v with registry } :=
  hd.congr (hd.undisturbed _ _ hd.around (.withRegistry v registry)) rfl rfl rfl

/-- The methods of several own classes are replaced. -/
theorem changeMethods_spec (hd : Drafting R m [] v) {pairs : List (ClassRef × List Method)}
    (hpairs : ∀ p ∈ pairs, p.1 ∈ m.ownClasses ∧
      ∀ d ∈ p.2, (∀ r ∈ d.refs, v.Visible m r) ∧ d.Shaped true) :
    Ends (pairs.forM (fun p => Run.changeClass p.1 fun c => { c with methods := p.2 }) v)
      (fun _ v' => ∃ linked, Drafting R m linked v' ∧ pairs.map Prod.fst ⊆ linked)
      (Stopped R m.id) := by
  refine Ends.imp (Ends.forM (fun done v' => Drafting R m (done.map Prod.fst) v' ∧
    ∀ r, v.Visible m r → v'.Visible m r) [] (fun done p v' hp hv' => ?_) ⟨hd, fun _ => id⟩) ?_
  · -- what one class refers to stays visible while the methods of another one are replaced
    obtain ⟨hd', hvisible⟩ := hv'
    obtain ⟨hown, hmethods⟩ := hpairs p hp
    refine ⟨hd'.changeClass hown (fun r _ hne => by simp [hne]) fun c hc => ?_, fun r hr =>
      (hvisible r hr).changeClass fun _ _ hlayout => hlayout⟩
    have hformed := hd'.formed p.1 c hown hc
    refine ⟨rfl, rfl, rfl, hformed.parent, hformed.fields, fun d hmem => ?_, hformed.resolved⟩
    obtain ⟨hrefs, hshaped⟩ := hmethods d hmem
    exact ⟨fun r hr => hvisible r (hrefs r hr), by simpa using hshaped⟩
  · exact fun _ v' hv' => ⟨_, hv'.1, fun r hr => by simpa using hr⟩

/-- Every own class gets methods that are bound exactly if they are native. -/
theorem linkClasses_spec (hd : Drafting R m [] v) :
    Ends (Run.linkClasses m v)
      (fun _ v' => ∃ linked, Drafting R m linked v' ∧ m.ownClasses ⊆ linked) (Stopped R m.id) := by
  unfold Run.linkClasses
  refine Ends.get ?_
  have hformed : ∀ r ∈ m.ownClasses, ∀ c, v.classes.get? r = some c →
      c.Formed (v.Visible m) false := fun r hr c hc => hd.formed r c hr hc
  have hlinked := Classes.linked_spec hformed v.registry
  refine Ends.bind (R := fun pairs v' => Drafting R m [] v' ∧
    (∀ p ∈ pairs, p.1 ∈ m.ownClasses ∧
      ∀ d ∈ p.2, (∀ r ∈ d.refs, v'.Visible m r) ∧ d.Shaped true) ∧
    m.ownClasses ⊆ pairs.map Prod.fst) (Ends.onRegistry (hlinked.mono ?_ ?_)) ?_
  · intro pairs registry hpairs
    refine ⟨hd.withRegistry registry, hpairs.1, fun r hr => ?_⟩
    obtain ⟨c, he⟩ := hd.entry? hr
    obtain ⟨p, hp, rfl⟩ := hpairs.2 r hr (by rw [get?_eq_some_iff.2 ⟨_, he⟩]; rfl)
    exact List.mem_map_of_mem hp
  · exact fun registry _ => (hd.withRegistry registry).stopped
  · intro pairs v' hv'
    obtain ⟨hd', hpairs, hall⟩ := hv'
    refine (changeMethods_spec hd' hpairs).imp fun _ v'' h => ?_
    obtain ⟨linked, hd'', hsub⟩ := h
    exact ⟨linked, hd'', fun r hr => hsub (hall hr)⟩

/-! ## Layouts -/

/-- A load whose classes are all linked and laid out. -/
structure Finished (R : Vault → Prop) (m : Module) (v : Vault) : Prop
    extends Loading R m m.ownClasses v where
  laidOut : ∀ r owner c, r ∈ m.ownClasses → v.classes.entry? r = some (owner, c) → c.layout.isSome

/-- Above an own class there are own classes up to one with a layout. -/
theorem Vault.Loading.climb (hl : Loading R m linked v) {cursor : Option ClassRef}
    {path : List ClassRef} (hclimb : Climb v.classes cursor path)
    (hcursor : ∀ r, cursor = some r → v.Visible m r) : path ⊆ m.ownClasses := by
  -- visible classes of others are laid out
  have hvisible : ∀ r, v.Visible m r →
      r ∈ m.ownClasses ∨ ∃ c, v.classes.get? r = some c ∧ c.layout.isSome := by
    rintro r (howner | ⟨owner, c, he, hlayout, _⟩)
    · exact Or.inl ((hl.owned_iff r).2 howner)
    · exact Or.inr ⟨c, get?_eq_some_iff.2 ⟨owner, he⟩, hlayout⟩
  exact hclimb.within (fun r c hown hc p hp => hvisible p ((hl.formed r c hown hc).parent p hp))
    fun r hr => hvisible r (hcursor r hr)

/-- Own classes are laid out. -/
theorem Vault.Loading.relaid (hl : Loading R m linked v) {refs : List ClassRef} {classes : Classes}
    (hr : Relaid v.classes refs classes) (hrooted : ∀ r ∈ refs, Rooted classes r)
    (hprivate : Private m.id v { v with classes }) : Loading R m linked { v with classes } := by
  have hvisible : ∀ r, v.Visible m r → ({ v with classes } : Vault).Visible m r := by
    intro r hvisible
    refine hvisible.mono (fun owner c he => ?_) rfl (List.Subset.refl _)
    obtain ⟨layout, he', _⟩ := hr.present r owner c he
    exact ⟨_, he', fun hlayout => hr.laidOut he (Or.inl hlayout) he'⟩
  refine ⟨hl.undisturbed, hl.undisturbed _ _ hl.around hprivate, hl.sound.relaid hr hrooted,
    hl.number, hl.alone, ?_, ?_, fun r hr => hvisible r (hl.referred r hr)⟩
  · intro r
    rw [hl.owned_iff, hr.ownerOf?]
  · intro r c hmem hc
    obtain ⟨c', he⟩ := hl.entry? hmem
    obtain ⟨layout, he', _⟩ := hr.present r _ c' he
    obtain ⟨owner, hpresent⟩ := get?_eq_some_iff.1 hc
    cases he'.symm.trans hpresent
    have hformed := (hl.formed r c' hmem (get?_eq_some_iff.2 ⟨_, he⟩)).mono hvisible
    exact ⟨hformed.parent, hformed.fields, hformed.methods, hformed.resolved⟩

/-- Laying an own class out gives it a layout, and takes none from the others. -/
theorem layOut_spec (hl : Loading R m linked v) {ref : ClassRef} (href : ref ∈ m.ownClasses) :
    Ends (Run.layOut ref v)
      (fun _ v' => Loading R m linked v' ∧
        (∀ owner c, v'.classes.entry? ref = some (owner, c) → c.layout.isSome) ∧
        ∀ r owner c, v'.classes.entry? r = some (owner, c) →
          ∃ c', v.classes.entry? r = some (owner, c') ∧ (c'.layout.isSome → c.layout.isSome))
      (Stopped R m.id) := by
  unfold Run.layOut
  refine Ends.get ?_
  cases hchain : v.classes.layoutChain ref with
  | error cause => exact hl.stopped
  | ok chain =>
      obtain ⟨path, hclimb, rfl⟩ := layoutChain_spec hchain
      have hrelaid := Relaid.foldl path.reverse v.classes
      have hown : path ⊆ m.ownClasses := by
        refine hl.climb hclimb fun r hr => ?_
        cases hr
        exact Or.inl ((hl.owned_iff ref).1 href)
      have hrooted : ∀ r ∈ path.reverse, Rooted _ r := fun r hr =>
        hclimb.rooted_of_mem hrelaid hl.sound.rooted (fun _ => List.mem_reverse.2)
          (List.mem_reverse.1 hr)
      have hprivate := Private.layOut hclimb fun r hr => (hl.owned_iff r).1 (hown hr)
      refine ⟨hl.relaid hrelaid hrooted hprivate, ?_, ?_⟩
      · intro owner c he
        obtain ⟨c', hbefore, _⟩ := hrelaid.before he
        refine hrelaid.laidOut hbefore ?_ he
        -- the class is the first one of the climb, unless it had a layout already
        cases hclimb with
        | laid he' hlayout =>
            cases hbefore.symm.trans he'
            exact Or.inl hlayout
        | step => exact Or.inr (by simp)
      · intro r owner c he
        obtain ⟨c', hbefore, _⟩ := hrelaid.before he
        exact ⟨c', hbefore, fun hlayout => hrelaid.laidOut hbefore (Or.inl hlayout) he⟩

/-- Once every own class is laid out, the module is finished. -/
theorem layOutAll_spec (hl : Loading R m m.ownClasses v) :
    Ends (m.ownClasses.forM Run.layOut v) (fun _ v' => Finished R m v') (Stopped R m.id) := by
  refine Ends.imp (Ends.forM (fun done v' => Loading R m m.ownClasses v' ∧
    ∀ r ∈ done, ∀ owner c, v'.classes.entry? r = some (owner, c) → c.layout.isSome) []
    (fun done r v' hr hv' => ?_) ⟨hl, by simp⟩) ?_
  · obtain ⟨hl', hdone⟩ := hv'
    refine (layOut_spec hl' hr).imp fun _ v'' h => ?_
    obtain ⟨hl'', hlaid, hkeep⟩ := h
    refine ⟨hl'', fun q hq owner c he => ?_⟩
    rcases List.mem_cons.1 hq with rfl | hq
    · exact hlaid owner c he
    · obtain ⟨c', he', hlayout⟩ := hkeep q owner c he
      exact hlayout (hdone q hq owner c' he')
  · intro _ v' hv'
    obtain ⟨hl', hall⟩ := hv'
    exact ⟨hl', fun r owner c hr => hall r (by simpa using hr) owner c⟩

/-! ## Whole modules -/

/-- A load whose own classes are all linked may be said to be linked. -/
theorem Vault.Loading.allLinked (hl : Loading R m linked v) (hall : m.ownClasses ⊆ linked) :
    Loading R m m.ownClasses v := by
  refine ⟨hl.undisturbed, hl.around, hl.sound, hl.number, hl.alone, hl.owned_iff,
    fun r c hr hc => ?_, hl.referred⟩
  rw [decide_eq_true hr, ← decide_eq_true (hall hr)]
  exact hl.formed r c hr hc

/-- Looking up a text of the module changes nothing. -/
theorem moduleString_spec {E : Vault → Prop} (hv : E v) (m : Module) (index : Int32) :
    Ends (Run.moduleString m index v) (fun _ v' => v' = v) E := by
  unfold Run.moduleString
  cases m.strings.get? index with
  | none => exact hv
  | some text => rfl

/-- Linking and laying out finish the module. -/
theorem linkAndLayOut_spec (hd : Drafting R m [] v) :
    Ends ((do Run.linkClasses m; m.ownClasses.forM Run.layOut; return m : Run Module) v)
      (fun m' v' => Finished R m' v' ∧ m.Evolves m') (Stopped R m.id) := by
  refine (linkClasses_spec hd).bind fun _ v' hv' => ?_
  obtain ⟨linked, hd', hall⟩ := hv'
  refine (layOutAll_spec (hd'.allLinked hall)).bind fun _ v'' hfinished => ?_
  exact ⟨hfinished, .refl m⟩

/-- The last stages finish the module, or leave what they can of it behind. -/
theorem finishModule_spec (hd : Drafting R m [] v) (versionIndex : Int32) :
    Ends (Run.finishModule m versionIndex v) (fun m' v' => Finished R m' v' ∧ m.Evolves m')
      (Stopped R m.id) := by
  unfold Run.finishModule
  refine (moduleString_spec hd.stopped m versionIndex).bind fun text v' hsame => ?_
  subst hsame
  have hversion : Ends (Run.answer (Version.read text) v') (fun _ s => s = v') (Stopped R m.id) :=
    Ends.answer (fun _ _ => rfl) hd.stopped
  refine hversion.bind fun version v hsame => ?_
  subst hsame
  have hread : Drafting R { m with version, aspects := Aspect.ofConstants m.constants } [] v :=
    hd.withModule rfl rfl (List.Subset.refl _) hd.referred
  have hevolves : m.Evolves { m with version, aspects := Aspect.ofConstants m.constants } :=
    ⟨rfl, rfl, rfl⟩
  refine (defineBootstrapper_spec hread).bind fun m₁ v₁ h₁ => ?_
  obtain ⟨hd₁, hevolves₁⟩ := h₁
  rw [← (hevolves.trans hevolves₁).id]
  refine (distribute_spec hd₁).bind fun m₂ v₂ h₂ => ?_
  obtain ⟨hd₂, hevolves₂⟩ := h₂
  rw [← hevolves₂.id]
  have hlast : Ends ((do Run.linkClasses m₂; m₂.ownClasses.forM Run.layOut; return m₂ : Run Module)
      v₂) (fun m' v' => Finished R m' v' ∧ m.Evolves m') (Stopped R m₂.id) :=
    (linkAndLayOut_spec hd₂).imp fun _ _ h =>
      ⟨h.1, hevolves.trans (hevolves₁.trans (hevolves₂.trans h.2))⟩
  refine Ends.get ?_
  cases v₂.config.validateTokens with
  | false => exact hlast
  | true =>
      have hchecked := Ends.forM_check fun ref (_ : ref ∈ m₂.ownClasses) =>
        checkToken_spec hd₂.stopped ref
      refine hchecked.bind fun _ v₃ hsame => ?_
      subst hsame
      exact hlast

/-- What a load asks its resolver for, when the module is `m'` and the vault `w`. -/
def Run.Requests (resolve : Resolver) (m : Module) (image : ModuleImage) (v : Vault)
    (e : Image.DependencyEntry) (version : Version) (m' : Module) (w : Vault) : Prop :=
  ∃ m₁ v₁, image.typeNames.foldlM Run.readTypeName m v = .ok m₁ v₁ ∧
    Run.Asks resolve (image.fieldNames.foldl Run.readFieldName m₁) image.dependencies v₁ e version
      m' w

/-- What a load requests is a dependency of the image. -/
theorem Run.Requests.mem {resolve : Resolver} {image : ModuleImage} {e : Image.DependencyEntry}
    {version : Version} {m' : Module} {w : Vault}
    (h : Run.Requests resolve m image v e version m' w) : e ∈ image.dependencies := by
  obtain ⟨_, _, _, hasks⟩ := h
  obtain ⟨before, after, hes, _⟩ := hasks.earlier
  simp [hes]

/-- Reading the names makes a stub for every class of the image. -/
theorem readNames_spec {R : List Dependency → Vault → Prop} (hs : Stubbed (R m.dependencies) m v)
    (image : ModuleImage) :
    Ends (image.typeNames.foldlM Run.readTypeName m v)
      (fun m₁ v₁ => ∃ m₂, m₂ = image.fieldNames.foldl Run.readFieldName m₁ ∧
        Stubbed (R m₂.dependencies) m₂ v₁ ∧ m.Evolves m₂) (Stopped (R m.dependencies) m.id) := by
  refine (readTypeNames_spec hs image.typeNames).imp fun m₁ v₁ h => ?_
  obtain ⟨hs₂, hevolves⟩ := readFieldNames_spec h.1 image.fieldNames
  have hsame := h.2.trans hevolves
  rw [← hsame.dependencies] at hs₂
  exact ⟨_, rfl, hs₂, hsame⟩

/-- A module that is read is finished, if the resolver serves each of its requests. -/
theorem readModule_spec {resolve : Resolver} {R : List Dependency → Vault → Prop}
    (hundisturbed : ∀ ds w w', R ds w → Private m.id w w' → R ds w')
    (hs : Stubbed (R m.dependencies) m v) (image : ModuleImage)
    (hresolve : ∀ e version m' w, Run.Requests resolve m image v e version m' w → w.Sound →
      R m'.dependencies w → resolve.Serves R m' e.name version w) :
    Ends (Run.readModule resolve m image v)
      (fun m' v' => Finished (R m'.dependencies) m' v' ∧ m'.id = m.id ∧ m'.name = m.name)
      (Stopped (fun w => ∃ ds, R ds w) m.id) := by
  have hstop : ∀ {m' : Module}, m'.id = m.id → ∀ w, Stopped (R m'.dependencies) m'.id w →
      Stopped (fun w => ∃ ds, R ds w) m.id w := by
    intro m' hid w hw
    rw [← hid]
    exact hw.mono fun _ h => ⟨_, h⟩
  unfold Run.readModule
  refine Ends.bind_split ((readNames_spec hs image).mono (fun _ _ => id) (hstop rfl))
    fun m₁ v₁ hrun h₁ => ?_
  obtain ⟨m₂, rfl, hs₂, hevolves⟩ := h₁
  have hdependencies := readDependencies_spec (by rwa [hevolves.id]) hs₂ image.dependencies
    fun e version m' w h => hresolve e version m' w ⟨m₁, v₁, hrun, h⟩
  rw [hevolves.id, hevolves.name] at hdependencies
  refine hdependencies.bind fun m₃ v₃ h₃ => ?_
  obtain ⟨hs₃, hid₃, hname₃⟩ := h₃
  refine ((readClasses_spec hs₃.toDrafting image).mono (fun _ _ => id) (hstop hid₃)).bind
    fun m₄ v₄ h₄ => ?_
  obtain ⟨hd₄, hevolves₄⟩ := h₄
  have hread : Drafting (R m₃.dependencies)
      { m₄ with constants := ConstantTable.ofEntries image.constants } [] v₄ :=
    hd₄.withModule rfl rfl (List.Subset.refl _) hd₄.referred
  refine (finishModule_spec hread image.versionIndex).mono (fun m' v' h => ?_) fun w hw => ?_
  · obtain ⟨hfinished, hevolves'⟩ := h
    have hsame : m₃.Evolves m' := hevolves₄.trans ⟨hevolves'.id, hevolves'.name,
      hevolves'.dependencies⟩
    rw [hsame.dependencies]
    exact ⟨hfinished, hsame.id.trans hid₃, hsame.name.trans hname₃⟩
  · exact hstop hid₃ w (hevolves₄.id ▸ hw)

/-- What is known of a load when it asks for a dependency. -/
theorem Run.Requests.reached {resolve : Resolver} {R : List Dependency → Vault → Prop}
    {image : ModuleImage} (hundisturbed : ∀ ds w w', R ds w → Private m.id w w' → R ds w')
    (hs : Stubbed (R m.dependencies) m v)
    (hresolve : ∀ e version m' w, Run.Requests resolve m image v e version m' w → w.Sound →
      R m'.dependencies w → resolve.Serves R m' e.name version w)
    {e : Image.DependencyEntry} {version : Version} {m' : Module} {w : Vault}
    (h : Run.Requests resolve m image v e version m' w) : w.Sound ∧ R m'.dependencies w := by
  obtain ⟨m₁, v₁, hrun, hasks⟩ := h
  obtain ⟨before, after, hes, hearlier⟩ := hasks.earlier
  have hnames := readNames_spec hs image
  rw [hrun] at hnames
  obtain ⟨m₂, rfl, hs₂, hevolves⟩ := hnames
  have hdone := readDependencies_spec (by rwa [hevolves.id]) hs₂ before
    fun e version m' w h => hresolve e version m' w ⟨m₁, v₁, hrun, hes ▸ h.append _⟩
  rw [hearlier] at hdone
  exact ⟨hdone.1.sound, hdone.1.around⟩

end VaultKernel
