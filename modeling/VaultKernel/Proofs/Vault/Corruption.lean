import VaultKernel.Proofs.Vault.Failures
import VaultKernel.Proofs.Vault.Nesting

/-!
# Corruption

Loads check for states of the vault that must not come about: a class that went away in the midst of
a load, one that is not complete or has no token when it should, a module that is gone after it was
loaded. `StopsFor` lists the failures that a stage can end with; none of these is among them.
`Searcher.load_corruption` says so of whole loads: what looks like corruption is a number that could
not be granted or an image whose classes extend each other in a circle.
-/

namespace VaultKernel

open Relation Arena Classes Vault

/-- What a failure rests on: the failure of the innermost dependency, if it is about one. -/
def Failure.root : Failure → Failure
  | .dependencyNotFound _ _ _ reason => reason.root
  | e => e

variable {R : Vault → Prop} {v w : Vault} {m : Module} {linked : List ClassRef}

namespace Vault

/-- The class is owned by the module, and its parents, which are too, lead back to it. -/
def Circular (v : Vault) (id : ModuleId) (className : String) : Prop :=
  ∃ r c, v.class? r = some c ∧ c.name.full = className ∧
    TransGen (v.classes.Extends fun q => v.classes.ownerOf? q = some id.toNat) r r

/-- No class of a module lacks its body. -/
def Bodied (v : Vault) (m : Module) : Prop :=
  ∀ r c, r ∈ m.ownClasses → v.class? r = some c → c.isCompleted

end Vault

/-- Why a stage of the load of a module stops in a vault, apart from its dependencies. -/
inductive StopsFor (id : ModuleId) : Failure → Vault → Prop where
  | rejected {e : Failure} {w : Vault} : e.Rejection → StopsFor id e w
  | exhausted {w : Vault} : w.tokens.nextClass? = none →
      StopsFor id (.fatal .classIdsExhausted) w
  | circular {className : String} {w : Vault} : w.Circular id className →
      StopsFor id (.fatal (.inheritanceCycle className)) w

/-- A stage that only rejects its image stops for that. -/
theorem FailsAs.rejected {α : Type} {run : Run α} {id : ModuleId}
    (hrun : FailsOnly Failure.Rejection run) : FailsAs (StopsFor id) (run v) :=
  .of_failsOnly hrun fun _ _ => .rejected

/-! ## Class numbers -/

/-- A class is not defined only if no number is left for it. -/
theorem defineClass_stops (id : ModuleId) (name : TypeName) (flags : ClassFlags) :
    FailsAs (StopsFor id) (Run.defineClass m name flags v) := by
  intro e w h
  rcases bind_error_cases h with h | ⟨_, _, _, h⟩
  · unfold Run.grantClassId at h
    split at h
    · cases h
    · next hnone =>
        cases h
        exact .exhausted hnone
  · rcases bind_error_cases h with h | ⟨_, _, _, h⟩ <;> cases h

/-- A type name stops a load for its image or for a number. -/
theorem readTypeName_stops (id : ModuleId) (e : Image.TypeNameEntry) :
    FailsAs (StopsFor id) (Run.readTypeName m e v) := by
  unfold Run.readTypeName
  rw [get_bind]
  cases CoreType.find? (TypeName.ofParts e.assembly e.space e.name) with
  | some t =>
      intro failure w h
      cases h
  | none =>
      dsimp only
      split
      · intro failure w h
        rw [map_eq_pure_bind] at h
        rcases bind_error_cases h with h | ⟨_, _, _, h⟩
        · rcases bind_error_cases h with h | ⟨_, _, _, h⟩
          · exact defineClass_stops id _ _ failure w h
          · cases h
        · cases h
      · intro failure w h
        cases h

/-- A row of type names stops a load for its image or for a number. -/
theorem readTypeNames_stops (id : ModuleId) (es : List Image.TypeNameEntry) :
    FailsAs (StopsFor id) (es.foldlM Run.readTypeName m v) := by
  intro failure w h
  obtain ⟨_, e, _, m', v', _, _, hfailed⟩ := foldlM_eq_error h
  exact readTypeName_stops id e failure w hfailed

/-! ## Bodies -/

/-- The classes of a module keep their bodies if a change takes none away. -/
theorem Vault.Bodied.changeClass (hb : v.Bodied m) {ref : ClassRef} {f : Class → Class}
    (hf : ∀ c, v.class? ref = some c → c.isCompleted → (f c).isCompleted) :
    ({ v with classes := v.classes.modify ref f } : Vault).Bodied m := by
  intro r c hr hc
  obtain ⟨owner, he⟩ := get?_eq_some_iff.1 hc
  obtain ⟨c', he', ⟨rfl, rfl⟩ | ⟨_, rfl⟩⟩ := entry?_of_modify he
  · have hc' : v.class? r = some c' := get?_eq_some_iff.2 ⟨owner, he'⟩
    exact hf c' hc' (hb r c' hr hc')
  · exact hb r c hr (get?_eq_some_iff.2 ⟨owner, he'⟩)

/-- All own classes are there. -/
def Vault.Holds (v : Vault) (m : Module) : Prop := ∀ r ∈ m.ownClasses, ∃ c, v.class? r = some c

/-- The classes of a module under way are there. -/
theorem Vault.Loading.holds (hl : Loading R m linked v) : v.Holds m := by
  intro r hr
  obtain ⟨c, he⟩ := hl.entry? hr
  exact ⟨c, get?_eq_some_iff.2 ⟨_, he⟩⟩

/-- Rewriting a class takes none of a module's classes away. -/
theorem Vault.Holds.changeClass (hv : v.Holds m) (ref : ClassRef) (f : Class → Class) :
    ({ v with classes := v.classes.modify ref f } : Vault).Holds m := by
  intro r hr
  obtain ⟨c, hc⟩ := hv r hr
  obtain ⟨owner, he⟩ := get?_eq_some_iff.1 hc
  by_cases href : r = ref
  · exact ⟨f c, get?_eq_some_iff.2 ⟨owner, by rw [entry?_modify, if_pos href, he]; rfl⟩⟩
  · exact ⟨c, get?_eq_some_iff.2 ⟨owner, by rw [entry?_modify, if_neg href, he]⟩⟩

/-- An own class is not freed before it is completed. -/
theorem completeClass_stops (hv : v.Holds m) (s : Symbols) {c : Run.ResolvedClass}
    (hown : c.declared.ref ∈ m.ownClasses) :
    FailsAs (StopsFor m.id) (Run.completeClass s c v) ∧
      Ends (Run.completeClass s c v) (fun _ v' => v'.Holds m) fun _ => True := by
  unfold Run.completeClass
  have hmethods : Ends ((c.methods.mapM fun x => Run.answer (x.complete s)) v)
      (fun _ v' => v' = v ∧ ∀ _, _) (fun _ => True) :=
    Ends.mapM (I := (· = v)) (R := fun _ _ => True) (fun x v' _ hv' =>
      Ends.answer (fun _ _ => ⟨hv', True.intro⟩) True.intro) rfl
  obtain ⟨d, hd⟩ := hv _ hown
  constructor
  · refine FailsAs.bind (.rejected (completeMethods_rejection s _)) hmethods fun methods v' h => ?_
    obtain ⟨rfl, _⟩ := h
    rw [get_bind, hd]
    exact .rejected (.modify _)
  · refine hmethods.bind fun methods v' h => ?_
    obtain ⟨rfl, _⟩ := h
    refine Ends.get ?_
    rw [hd]
    exact hv.changeClass _ _

/-- The last check of all classes lets only complete ones pass. -/
theorem checkCompleted_bodied (m : Module) (v : Vault) :
    Ends (m.ownClasses.forM Run.checkCompleted v) (fun _ v' => v' = v ∧ v.Bodied m)
      fun _ => True := by
  refine Ends.imp (Ends.forM (fun done v' => v' = v ∧ ∀ r ∈ done, ∀ c, v.class? r = some c →
    c.isCompleted) [] (fun done r v' _ hv' => ?_) ⟨rfl, by simp⟩) fun _ v' h =>
      ⟨h.1, fun r c hr => h.2 r (by simpa using hr) c⟩
  obtain ⟨rfl, hdone⟩ := hv'
  unfold Run.checkCompleted
  refine Ends.get ?_
  cases hc : v'.class? r with
  | none =>
      refine ⟨rfl, fun q hq c hc' => ?_⟩
      rcases List.mem_cons.1 hq with rfl | hq
      · cases hc.symm.trans hc'
      · exact hdone q hq c hc'
  | some c =>
      dsimp only
      cases hcompleted : c.isCompleted with
      | false => exact True.intro
      | true =>
          refine ⟨rfl, fun q hq c' hc' => ?_⟩
          rcases List.mem_cons.1 hq with rfl | hq
          · cases hc.symm.trans hc'
            exact hcompleted
          · exact hdone q hq c' hc'

/-- Once its bodies are read, no class of a module lacks one. -/
theorem readClasses_bodied (m : Module) (image : ModuleImage) (v : Vault) :
    Ends (Run.readClasses m image v) (fun m' v' => v'.Bodied m') fun _ => True := by
  unfold Run.readClasses
  refine (Ends.trivial _).bind fun declared v _ => Ends.get ?_
  refine (Ends.trivial _).bind fun generics v _ => ?_
  refine (Ends.trivial _).bind fun classes v _ => ?_
  refine (Ends.trivial _).bind fun aliases v _ => ?_
  refine (Ends.trivial _).bind fun _ v _ => ?_
  refine (checkCompleted_bodied _ v).bind fun _ v' h => ?_
  obtain ⟨rfl, hb⟩ := h
  exact hb

/-- What is resolved was declared. -/
theorem declared_of_resolveClasses {s : Symbols} {declared : List DeclaredClass}
    {resolved : List Run.ResolvedClass} (h : Run.resolveClasses s declared = .ok resolved) :
    ∀ c ∈ resolved, c.declared ∈ declared := by
  have hwithin : s.Within fun _ => True :=
    ⟨fun _ _ => True.intro, fun _ _ _ _ => True.intro, True.intro⟩
  exact fun c hc => (hwithin.resolveClasses h c hc).2

/-- Reading the bodies stops for the image or for a number. -/
theorem readClasses_stops (hd : Drafting R m [] v) (image : ModuleImage) :
    FailsAs (StopsFor m.id) (Run.readClasses m image v) := by
  unfold Run.readClasses
  have hdeclare : Ends (image.classes.mapM (Run.declareClass m) v)
      (fun declared v' => Drafting R m [] v' ∧
        ∀ d ∈ declared, ∃ body ∈ image.classes, d.ref ∈ m.ownClasses) (Stopped R m.id) :=
    Ends.mapM (fun body v' _ hd' => declareClass_spec hd' body) hd
  refine FailsAs.bind (.rejected (.mapM (declareClass_rejection m) _)) hdeclare
    fun declared v₁ hdeclared => ?_
  obtain ⟨hd₁, hown⟩ := hdeclared
  rw [get_bind]
  have hresolved : ∀ {α : Type} (x : Except Unresolved α),
      Ends (Run.resolved x v₁) (fun a v' => v' = v₁ ∧ x = .ok a) fun _ => True :=
    fun x => Ends.resolved (fun _ h => ⟨rfl, h⟩) True.intro
  refine FailsAs.bind (.rejected (.resolved _)) (hresolved _) fun generics v' h => ?_
  obtain ⟨rfl, _⟩ := h
  refine FailsAs.bind (.rejected (.resolved _)) (hresolved _) fun classes v' h => ?_
  obtain ⟨rfl, hclasses⟩ := h
  refine FailsAs.bind (.rejected (.resolved _)) (hresolved _) fun aliases v' h => ?_
  obtain ⟨rfl, _⟩ := h
  -- every class to complete was declared for an own one
  have hcomplete : ∀ s c v, c ∈ classes → v.Holds m →
      FailsAs (StopsFor m.id) (Run.completeClass s c v) ∧
        Ends (Run.completeClass s c v) (fun _ v' => v'.Holds m) fun _ => True := by
    intro s c v hc hv
    obtain ⟨_, _, hmem⟩ := hown _ (declared_of_resolveClasses hclasses c hc)
    exact completeClass_stops hv s hmem
  refine FailsAs.bind (FailsAs.forM (fun v => v.Holds m) (hcomplete _) hd₁.holds) (Ends.trivial _)
    fun _ v₂ _ => ?_
  refine FailsAs.bind (.rejected (.forM checkCompleted_rejection _)) (Ends.trivial _) ?_
  intro _ v₃ _ e w h
  cases h

/-! ## The class of the runtime -/

/-- The bootstrapper stops a load for a number only. -/
theorem defineBootstrapper_stops (id : ModuleId) :
    FailsAs (StopsFor id) (Run.defineBootstrapper m v) := by
  intro e w h
  rcases bind_error_cases h with h | ⟨_, _, _, h⟩
  · exact defineClass_stops id _ _ e w h
  · rcases bind_error_cases h with h | ⟨_, _, _, h⟩ <;> cases h

/-- The bootstrapper has a body. -/
theorem defineBootstrapper_bodied (hd : Drafting R m linked v) (hb : v.Bodied m) :
    Ends (Run.defineBootstrapper m v) (fun m' v' => v'.Bodied m') fun _ => True := by
  unfold Run.defineBootstrapper
  refine (defineClass_spec (E := fun _ => True) True.intro _ _).bind fun p v' hp => ?_
  obtain ⟨c, classId, tokens, hnext, hc, rfl, rfl⟩ := hp
  have hall := allocate_spec hd.sound.arena hd.sound.hasRoom m.id.toNat c
  intro r d hr hget
  obtain ⟨owner, he⟩ := get?_eq_some_iff.1 hget
  obtain ⟨d', he', ⟨rfl, rfl⟩ | ⟨hne, rfl⟩⟩ := entry?_of_modify he
  · rfl
  · -- any other own class was there before
    change r ∈ (m.addOwn _).ownClasses at hr
    rw [Module.ownClasses_addOwn, List.mem_append, List.mem_singleton] at hr
    obtain ⟨d'', hold⟩ := hd.entry? (hr.resolve_right hne)
    cases (hall.extends.entry? hold).symm.trans he'
    exact hb r _ (hr.resolve_right hne) (get?_eq_some_iff.2 ⟨_, hold⟩)

/-! ## Aspects and tokens -/

/-- A complete class is not unresolved. -/
theorem Vault.Bodied.resolved (hb : v.Bodied m) (hl : Loading R m linked v) {r : ClassRef}
    {c : Class} (hr : r ∈ m.ownClasses) (hc : v.class? r = some c) :
    c.flags.unresolved = false := by
  cases hunresolved : c.flags.unresolved with
  | false => rfl
  | true =>
      have hcompleted := hb r c hr hc
      rw [Class.isCompleted, (hl.formed r c hr hc).resolved hunresolved] at hcompleted
      cases hcompleted

/-- Aspects can be attached to complete classes. -/
theorem attachOne_bodied (hd : Drafting R m linked v) (hb : v.Bodied m) (aspect : Aspect) :
    Ends (m.attachOne aspect v.classes) (fun _ classes => ({ v with classes } : Vault).Bodied m)
      fun _ => False := by
  unfold Module.attachOne
  cases hfind : m.ownNamed? v.classes aspect.target.className with
  | none => exact hb
  | some ref =>
      have hown : ref ∈ m.ownClasses := List.mem_of_find?_eq_some hfind
      dsimp only
      cases hc : v.classes.get? ref with
      | none => exact hb
      | some c =>
          dsimp only
          rw [hb.resolved hd.toLoading hown hc]
          cases hattach : c.attach? aspect with
          | none => exact hb
          | some changed =>
              refine hb.changeClass fun c' hc' hcompleted => ?_
              cases hc.symm.trans hc'
              rw [Class.isCompleted, (Class.attach?_frame hattach).2.2.1]
              exact hcompleted

/-- Attaching aspects takes no body away. -/
theorem attachAll_bodied (hd : Drafting R m linked v) (hb : v.Bodied m) (aspects : List Aspect) :
    Ends (m.attachAll aspects v.classes)
      (fun _ classes => ({ v with classes } : Vault).Bodied m) fun _ => False := by
  induction aspects generalizing v with
  | nil => exact hb
  | cons aspect rest ih =>
      have hfirst := (attachOne_spec hd aspect).and (attachOne_bodied hd hb aspect)
      refine (hfirst.mono (fun _ _ => id) fun _ h => h.2).bind fun _ classes h => ?_
      refine (ih h.1 h.2).bind fun _ classes' hb' => ?_
      exact hb'

/-- Distributing aspects takes no body away, and never fails on a live module. -/
theorem distribute_bodied (hd : Drafting R m linked v) (hb : v.Bodied m) :
    Ends (Run.onClasses m.distribute v) (fun m' v' => v'.Bodied m') fun _ => False :=
  Ends.onClasses ((attachAll_bodied hd hb m.aspects).bind fun _ _ hb' => hb')

/-- The tokens of a module under way lead back to its classes. -/
theorem checkTokens_ends (hl : Loading R m linked v) :
    Ends (m.ownClasses.forM Run.checkToken v) (fun _ v' => v' = v) fun _ => False := by
  refine Ends.forM_check fun r hr => ?_
  obtain ⟨c, he⟩ := hl.entry? hr
  have hc : v.classOf r = .ok c := classOf_eq_ok.2 (get?_eq_some_iff.2 ⟨_, he⟩)
  unfold Run.checkToken
  rw [ask_bind hc, if_pos (hl.sound.token_isSet he)]
  rfl

/-! ## Native methods and layouts -/

/-- Linking takes no body away. -/
theorem linkClasses_bodied (hb : v.Bodied m) :
    Ends (Run.linkClasses m v) (fun _ v' => v'.Bodied m) fun _ => True := by
  unfold Run.linkClasses
  refine Ends.get ?_
  have hpairs : Ends (Run.onRegistry (v.classes.linked m.ownClasses) v) (fun _ v' => v'.Bodied m)
      fun _ => True :=
    Ends.onRegistry (Ends.of_forall (fun _ _ => hb) fun _ => True.intro)
  refine hpairs.bind fun pairs v' hb' => ?_
  refine Ends.forM (fun _ (v : Vault) => v.Bodied m) [] (fun _ p v _ hv => ?_) hb'
  exact hv.changeClass fun _ _ hcompleted => hcompleted

/-- The search from an own class stays among own classes until it meets one with a layout. -/
theorem layOut_stops (hl : Loading R m linked v) (hb : v.Bodied m) {ref : ClassRef}
    (href : ref ∈ m.ownClasses) : FailsAs (StopsFor m.id) (Run.layOut ref v) := by
  unfold Run.layOut
  rw [get_bind]
  cases hchain : v.classes.layoutChain ref with
  | ok chain => exact .rejected (.modify _)
  | error cause =>
      have hown : ∀ r, v.classes.ownerOf? r = some m.id.toNat → r ∈ m.ownClasses :=
        fun r => (hl.owned_iff r).2
      have hcomplete : ∀ r c, v.classes.ownerOf? r = some m.id.toNat →
          v.classes.get? r = some c → c.isCompleted := fun r c hr hc => hb r c (hown r hr) hc
      have hparent : ∀ r c p, v.classes.ownerOf? r = some m.id.toNat →
          v.classes.get? r = some c → c.parent = some p →
            v.classes.ownerOf? p = some m.id.toNat ∨
              ∃ c', v.classes.get? p = some c' ∧ c'.layout.isSome := by
        intro r c p hr hc hp
        rcases (hl.formed r c (hown r hr) hc).parent p hp with howner | ⟨owner, c', he, hlaid, _⟩
        · exact Or.inl howner
        · exact Or.inr ⟨c', get?_eq_some_iff.2 ⟨owner, he⟩, hlaid⟩
      have hlive : ∀ r, v.classes.ownerOf? r = some m.id.toNat → (v.classes.get? r).isSome := by
        intro r hr
        obtain ⟨c, hc⟩ := hl.holds r (hown r hr)
        exact Option.isSome_iff_exists.2 ⟨c, hc⟩
      have hstart : ∀ r, some ref = some r → v.classes.ownerOf? r = some m.id.toNat ∨
          ∃ c, v.classes.get? r = some c ∧ c.layout.isSome := by
        intro r hr
        cases hr
        exact Or.inl ((hl.owned_iff ref).1 href)
      obtain ⟨r, c, hc, rfl, hcycle⟩ :=
        withoutLayout_eq_error hcomplete hparent hlive hstart (by simp) hchain
      intro e w h
      cases h
      exact .circular ⟨r, c, hc, rfl, hcycle⟩

/-- Laying a class out takes no body away. -/
theorem layOut_bodied (hb : v.Bodied m) (ref : ClassRef) :
    Ends (Run.layOut ref v) (fun _ v' => v'.Bodied m) fun _ => True := by
  unfold Run.layOut
  refine Ends.get ?_
  cases v.classes.layoutChain ref with
  | error cause => exact True.intro
  | ok chain =>
      intro r c hr hc
      obtain ⟨owner, he⟩ := get?_eq_some_iff.1 hc
      obtain ⟨c', hbefore, heq⟩ := (Relaid.foldl chain v.classes).before he
      rw [heq]
      exact hb r c' hr (get?_eq_some_iff.2 ⟨owner, hbefore⟩)

/-- Laying out stops for a circle among the module's own classes only. -/
theorem layOutAll_stops (hl : Loading R m linked v) (hb : v.Bodied m) :
    FailsAs (StopsFor m.id) (m.ownClasses.forM Run.layOut v) := by
  refine FailsAs.forM (fun v => Loading R m linked v ∧ v.Bodied m) (E := fun _ => True)
    (fun r v hr h => ⟨layOut_stops h.1 h.2 hr, ?_⟩) ⟨hl, hb⟩
  refine ((layOut_spec h.1 hr).and (layOut_bodied h.2 r)).mono (fun _ _ h' => ?_)
    fun _ _ => True.intro
  exact ⟨h'.1.1, h'.2⟩

/-- The last stages stop for the image or for a circle. -/
theorem linkAndLayOut_stops (hd : Drafting R m [] v) (hb : v.Bodied m) :
    FailsAs (StopsFor m.id)
      ((do Run.linkClasses m; m.ownClasses.forM Run.layOut; return m : Run Module) v) := by
  have hlinked := (linkClasses_spec hd).and (linkClasses_bodied hb)
  refine FailsAs.bind (.rejected (linkClasses_rejection m)) hlinked fun _ v' h => ?_
  obtain ⟨⟨linked, hd', _⟩, hb'⟩ := h
  refine FailsAs.bind (layOutAll_stops hd'.toLoading hb') (Ends.trivial _) ?_
  intro _ _ _ e w h
  cases h

/-- Finishing a module stops for the image, for a number or for a circle. -/
theorem finishModule_stops (hd : Drafting R m [] v) (hb : v.Bodied m) (versionIndex : Int32) :
    FailsAs (StopsFor m.id) (Run.finishModule m versionIndex v) := by
  unfold Run.finishModule
  refine FailsAs.bind (.rejected (moduleString_rejection m versionIndex))
    (moduleString_spec (E := fun _ => True) True.intro m versionIndex) fun text v' h => ?_
  subst h
  have hversion : Ends (Run.answer (Version.read text) v') (fun _ s => s = v') fun _ => True :=
    Ends.answer (fun _ _ => rfl) True.intro
  refine FailsAs.bind (.rejected (.answer fun _ => Version.read_rejection)) hversion
    fun version v h => ?_
  subst h
  have hread : Drafting R { m with version, aspects := Aspect.ofConstants m.constants } [] v :=
    hd.withModule rfl rfl (List.Subset.refl _) hd.referred
  have hboot := (defineBootstrapper_spec hread).and (defineBootstrapper_bodied hread hb)
  refine FailsAs.bind (defineBootstrapper_stops m.id) hboot fun m₁ v₁ h₁ => ?_
  obtain ⟨⟨hd₁, hevolves₁⟩, hb₁⟩ := h₁
  have hdistribute := (distribute_spec hd₁).and (distribute_bodied hd₁ hb₁)
  refine FailsAs.bind (.of_ends (distribute_bodied hd₁ hb₁)) hdistribute fun m₂ v₂ h₂ => ?_
  obtain ⟨⟨hd₂, hevolves₂⟩, hb₂⟩ := h₂
  have hid : m₂.id = m.id := hevolves₂.id.trans hevolves₁.id
  have hlast := linkAndLayOut_stops hd₂ hb₂
  rw [hid] at hlast
  rw [get_bind]
  cases v₂.config.validateTokens with
  | false => exact hlast
  | true =>
      have hchecked := checkTokens_ends hd₂.toLoading
      refine FailsAs.bind (.of_ends hchecked) hchecked fun _ v₃ h => ?_
      subst h
      exact hlast

/-! ## Whole modules -/

/-- A load stops for a reason of its own or because a request failed. -/
theorem readModule_stops {resolve : Resolver} (hresolve : resolve.Safe)
    (hs : Stubbed (fun _ => True) m v) (image : ModuleImage) {P : Failure → Vault → Prop}
    (hstops : ∀ e w, StopsFor m.id e w → P e w)
    (hrequest : ∀ e version m' w reason w', Run.Requests resolve m image v e version m' w →
      resolve e.name version w = .error reason w' →
        P (Run.dependencyFailure e.name version m'.name reason) w') :
    FailsAs P (Run.readModule resolve m image v) := by
  have hserves : ∀ (m' : Module) name version w, w.Sound →
      resolve.Serves (fun _ _ => True) m' name version w := fun m' name version w hw =>
    (hresolve name version w hw).mono (fun _ _ h => ⟨h.sound, h.keeps, True.intro⟩)
      fun _ h => ⟨h.sound, h.keeps, True.intro⟩
  unfold Run.readModule
  intro e w h
  rcases bind_error_cases h with hnames | ⟨m₁, v₁, hnames, h⟩
  · exact hstops e w (readTypeNames_stops m.id _ e w hnames)
  have hnamed := readNames_spec (R := fun _ _ => True) hs image
  rw [hnames] at hnamed
  obtain ⟨m₂, rfl, hs₂, hevolves⟩ := hnamed
  rcases bind_error_cases h with hfailed | ⟨m₃, v₃, hread, h⟩
  · obtain ⟨before, entry, after, m', u, hes, hearlier, hfailed⟩ := foldlM_eq_error hfailed
    rcases readDependency_eq_error hfailed with
      hrejected | ⟨version, reason, hversion, hunlisted, hresolved, rfl⟩
    · exact hstops e w (.rejected hrejected)
    · exact hrequest entry version m' u reason w
        ⟨m₁, v₁, hnames, ⟨before, after, hes, hearlier⟩, hversion, hunlisted⟩ hresolved
  have hdependencies := readDependencies_spec (fun _ _ _ _ _ => True.intro) hs₂ image.dependencies
    fun e version m' w _ hw _ => hserves m' e.name version w hw
  rw [hread] at hdependencies
  obtain ⟨hs₃, hid₃, _⟩ := hdependencies
  rw [← hevolves.id, ← hid₃] at hstops
  rcases bind_error_cases h with h | ⟨m₄, v₄, hclasses, h⟩
  · exact hstops e w (readClasses_stops hs₃.toDrafting image e w h)
  have hended := (readClasses_spec hs₃.toDrafting image).and (readClasses_bodied m₃ image v₃)
  rw [hclasses] at hended
  obtain ⟨⟨hd₄, hevolves₄⟩, hb₄⟩ := hended
  have hfinal : Drafting (fun _ => True)
      { m₄ with constants := ConstantTable.ofEntries image.constants } [] v₄ :=
    hd₄.withModule rfl rfl (List.Subset.refl _) hd₄.referred
  rw [← hevolves₄.id] at hstops
  exact hstops e w (finishModule_stops hfinal hb₄ image.versionIndex e w h)

namespace LoadCall

variable {s : Searcher} {c c' : LoadCall} {image : ModuleImage} {e : Failure}

/-! ## Vaults that stay alive -/

/-- A request disposes the vault only if a load made by it does. -/
theorem alive_of_request
    (hnested : ∀ c', Nests s c c' → c'.vault.Sound → c'.vault.disposed = none →
      (stateAfter (c'.run s)).disposed = none)
    (hb : c.vault.Begins c.bytes image m w) {entry : Image.DependencyEntry} {version : Version}
    {m' : Module} {u : Vault}
    (hrequest : Run.Requests (s.resolveWithin c.depth) m image w entry version m' u)
    (hs : u.Sound) (hu : u.disposed = none) :
    (stateAfter (s.resolveWithin c.depth entry.name version u)).disposed = none := by
  obtain ⟨depth, bytes, v⟩ := c
  generalize hresult : s.resolveWithin depth entry.name version u = result
  have hsupplies := hresult ▸ Searcher.resolveWithin_supplies s depth entry.name version u
  have hafter : ∀ {depth' bytes' result'}, depth = depth' + 1 →
      s.Finds entry.name version u bytes' → LoadCall.run s ⟨depth', bytes', u⟩ = result' →
        (stateAfter result').disposed = none := by
    rintro depth' bytes' _ rfl hfinds rfl
    exact hnested _ (.intro hb hrequest hfinds) hs hu
  cases hsupplies with
  | exhausted => exact hu
  | reused => exact hu
  | cyclic => exact hu
  | missing => exact hu
  | loaded hfinds hrun => exact hafter rfl hfinds hrun
  | mismatched hfinds hrun =>
      have hdone := hafter rfl hfinds hrun
      exact hdone
  | failed hfinds hrun => exact hafter rfl hfinds hrun

/-- A request is served in a vault that stays alive. -/
theorem serves_alive
    (hnested : ∀ c', Nests s c c' → c'.vault.Sound → c'.vault.disposed = none →
      (stateAfter (c'.run s)).disposed = none)
    (hb : c.vault.Begins c.bytes image m w) {entry : Image.DependencyEntry} {version : Version}
    {m' : Module} {u : Vault}
    (hrequest : Run.Requests (s.resolveWithin c.depth) m image w entry version m' u)
    (hs : u.Sound) (hu : u.disposed = none) :
    (s.resolveWithin c.depth).Serves (fun _ w => w.disposed = none) m' entry.name version u := by
  have hsafe := resolveWithin_safe s c.depth entry.name version u hs
  have halive := (ends_iff (E := fun w : Vault => w.disposed = none)).2
    (alive_of_request hnested hb hrequest hs hu)
  exact (hsafe.and halive).mono (fun _ _ h => ⟨h.1.sound, h.1.keeps, h.2⟩)
    fun _ h => ⟨h.1.sound, h.1.keeps, h.2⟩

/-- The stages of a load do not dispose the vault. -/
theorem undisposed_private (id : ModuleId) (_ : List Dependency) (w w' : Vault)
    (hw : w.disposed = none) (hprivate : Private id w w') : w'.disposed = none := by
  rw [hprivate.rest]
  exact hw

/-- A load that begins disposes of nothing. -/
theorem alive_of_begins (halive : c.vault.disposed = none)
    (hb : c.vault.Begins c.bytes image m w) : w.disposed = none := by
  rw [hb.begun]
  exact halive

/-- A load disposes of nothing, if the loads that it makes do not. -/
theorem alive_of_nested (hs : c.vault.Sound) (halive : c.vault.disposed = none)
    (hnested : ∀ c', Nests s c c' → c'.vault.Sound → c'.vault.disposed = none →
      (stateAfter (c'.run s)).disposed = none) : (stateAfter (c.run s)).disposed = none := by
  have houtline : Outline (s.resolveWithin c.depth) c.bytes c.vault (c.run s) :=
    loadImage_outline _ _ _
  have hread : ∀ {image m w}, c.vault.Begins c.bytes image m w →
      Ends (Run.readModule (s.resolveWithin c.depth) m image w) (fun _ w' => w'.disposed = none)
        fun w' => w'.disposed = none := by
    intro image m w hb
    have hstubbed := hb.stubbed hs (R := fun w => w.disposed = none) (alive_of_begins halive hb)
      (undisposed_private m.id [])
    refine (readModule_spec (R := fun _ w => w.disposed = none) (undisposed_private m.id) hstubbed
      image fun _ _ _ _ => serves_alive hnested hb).mono (fun _ _ h => h.1.around) fun _ h => ?_
    exact h.around.choose_spec
  generalize hresult : c.run s = result at houtline
  cases houtline with
  | refused => exact halive
  | cyclic => exact halive
  | completed hb hrun =>
      have hdone := hread hb
      rw [hrun] at hdone
      exact hdone
  | abandoned hb hrun =>
      have hdone := hread hb
      rw [hrun] at hdone
      exact hdone

/-- A load does not dispose the vault. -/
theorem alive (s : Searcher) (c : LoadCall) (hs : c.vault.Sound)
    (halive : c.vault.disposed = none) :
    (stateAfter (c.run s)).disposed = none := by
  obtain ⟨depth, bytes, v⟩ := c
  induction depth generalizing bytes v with
  | zero => exact alive_of_nested hs halive fun c' hnests => nomatch hnests
  | succ depth ih =>
      refine alive_of_nested hs halive fun c' hnests hs' halive' => ?_
      cases hnests with
      | intro => exact ih _ _ hs' halive'

/-- A load that is made by another one begins in a vault that is not disposed. -/
theorem Nests.alive (h : Nests s c c') (hs : c.vault.Sound) (halive : c.vault.disposed = none) :
    c'.vault.disposed = none := by
  obtain ⟨hb, hrequest, _⟩ := h
  have hstubbed := hb.stubbed hs (R := fun w => w.disposed = none)
    (alive_of_begins (c := ⟨_, _, _⟩) halive hb) (undisposed_private _ [])
  exact (hrequest.reached (R := fun _ w => w.disposed = none) (undisposed_private _) hstubbed
    fun _ _ _ _ => serves_alive (c := ⟨_, _, _⟩) (fun c' _ => LoadCall.alive s c') hb).2

/-! ## What looks like corruption -/

/-- A load that stops because classes of its module extend each other in a circle. -/
def EndsInCircle (s : Searcher) (c : LoadCall) (cause : Fatal) : Prop :=
  ∃ image m w u className, c.vault.Begins c.bytes image m w ∧
    Run.readModule (s.resolveWithin c.depth) m image w = .error (.fatal cause) u ∧
    cause = .inheritanceCycle className ∧ u.Circular m.id className

/-- A failure of a load, with the vault that it leaves behind: it rests on no unresolved class, and
on a corrupt state only if a number could not be granted or if classes extend each other in a circle
in the module of a load that is made by this one, or of this one itself if the failure is about no
dependency. -/
structure Accounted (s : Searcher) (c : LoadCall) (e : Failure) (w : Vault) : Prop where
  resolved : ∀ className, e.root ≠ .unresolvedClass className
  corrupt : ∀ cause, e.root = .fatal cause → cause.code = .stateCorrupt →
    cause = .moduleIdsExhausted ∧ w.tokens.nextModule? = none ∨
    cause = .classIdsExhausted ∧ w.tokens.nextClass? = none ∨
    ∃ c', ReflTransGen (Nests s) c c' ∧ c'.EndsInCircle s cause ∧ (e = .fatal cause → c' = c)

/-- A rejected image is accounted for. -/
theorem Accounted.of_rejection (h : e.Rejection) : c.Accounted s e w := by
  cases h with
  | unresolved what => exact ⟨nofun, nofun⟩
  | fatal hcode =>
      refine ⟨nofun, fun cause hroot hcorrupt => absurd hcorrupt ?_⟩
      cases hroot
      exact hcode

/-- An account of a failure looks at nothing but the numbers that are left. -/
theorem Accounted.of_tokens {w' : Vault} (h : c.Accounted s e w) (htokens : w'.tokens = w.tokens) :
    c.Accounted s e w' := by
  refine ⟨h.resolved, ?_⟩
  rw [htokens]
  exact h.corrupt

/-- A failed dependency rests on what its request failed with. -/
theorem root_dependencyFailure (name module : String) (version : Version) (e : Failure) :
    (Run.dependencyFailure name version module e).root = e.root := by
  cases e <;> rfl

/-- No fatal failure of its own comes from a dependency. -/
theorem dependencyFailure_ne_fatal {name module : String} {version : Version} {cause : Fatal} :
    Run.dependencyFailure name version module e ≠ .fatal cause := by
  cases e <;> exact nofun

/-- A failure for the sake of a dependency. -/
theorem Accounted.for_dependency (hcalls : ReflTransGen (Nests s) c c') (h : c'.Accounted s e w)
    (name module : String) (version : Version) :
    c.Accounted s (Run.dependencyFailure name version module e) w := by
  refine ⟨fun className => ?_, fun cause hroot hcorrupt => ?_⟩
  · rw [root_dependencyFailure]
    exact h.resolved className
  · rw [root_dependencyFailure] at hroot
    refine (h.corrupt cause hroot hcorrupt).imp_right (Or.imp_right ?_)
    rintro ⟨inner, hinner, hcircle, _⟩
    exact ⟨inner, hcalls.trans hinner, hcircle, fun heq => absurd heq dependencyFailure_ne_fatal⟩

/-- A searcher that has no image is accounted for. -/
theorem accounted_image {name : String} (h : s.image name = .error e) : c.Accounted s e w := by
  rcases Searcher.image_eq_error h with rfl | ⟨error, rfl⟩
  · exact .of_rejection (.fatal nofun)
  · exact ⟨nofun, nofun⟩

/-- A module that was loaded does not vanish before its version is checked. -/
theorem accounted_checkVersion {name : String} {version : Version} {id : ModuleId} {u v' : Vault}
    (hs : c'.vault.Sound) (hrun : c'.run s = .ok id v')
    (h : Searcher.checkVersion name version id v' = .error e u) : c.Accounted s e u := by
  have hspec := loadImage_spec (resolveWithin_safe s c'.depth) hs c'.bytes
  rw [show Run.loadImage _ _ _ = _ from hrun] at hspec
  obtain ⟨_, m, rfl, hm⟩ := hspec
  unfold Searcher.checkVersion at h
  rw [get_bind, hm.listed] at h
  dsimp only at h
  split at h
  · cases h
  · cases h
    exact .of_rejection (.fatal nofun)

/-- A request that fails. -/
theorem accounted_request
    (hnested : ∀ c', Nests s c c' → c'.vault.Sound → c'.vault.disposed = none →
      FailsAs (c'.Accounted s) (c'.run s))
    (hs : c.vault.Sound) (halive : c.vault.disposed = none)
    (hb : c.vault.Begins c.bytes image m w) {entry : Image.DependencyEntry} {version : Version}
    {m' : Module} {u w' : Vault} {reason : Failure}
    (hrequest : Run.Requests (s.resolveWithin c.depth) m image w entry version m' u)
    (hfailed : s.resolveWithin c.depth entry.name version u = .error reason w') :
    c.Accounted s (Run.dependencyFailure entry.name version m'.name reason) w' := by
  obtain ⟨depth, bytes, v⟩ := c
  have hsupplies := hfailed ▸ Searcher.resolveWithin_supplies s depth entry.name version u
  cases hsupplies with
  | exhausted => exact ⟨nofun, nofun⟩
  | cyclic => exact ⟨nofun, nofun⟩
  | missing himage =>
      exact (accounted_image himage).for_dependency .refl _ _ _
  | mismatched hfinds hrun hcheck =>
      have hnests := Nests.intro hb hrequest hfinds
      have hsound := (hnests.keeps hs).1
      exact (accounted_checkVersion hsound hrun hcheck).for_dependency (.single hnests) _ _ _
  | failed hfinds hrun =>
      have hnests := Nests.intro hb hrequest hfinds
      have haccounted := hnested _ hnests (hnests.keeps hs).1 (hnests.alive hs halive) _ _ hrun
      exact haccounted.for_dependency (.single hnests) _ _ _

/-! ## Whole loads -/

/-- A load that is refused is accounted for. -/
theorem accounted_refused (halive : c.vault.disposed = none) (h : c.vault.Refuses e)
    {tokens : TokenCounter} (hgrants : c.vault.Grants tokens) :
    c.Accounted s e { c.vault with tokens } := by
  cases h with
  | disposed hdisposed =>
      rw [halive] at hdisposed
      cases hdisposed
  | malformed error => exact .of_rejection (.fatal nofun)
  | nameless what => exact .of_rejection (.unresolved what)
  | exhausted hnone =>
      refine ⟨nofun, fun cause hroot _ => Or.inl ?_⟩
      cases hroot
      rcases hgrants with rfl | ⟨id, hnext⟩
      · exact ⟨rfl, hnone⟩
      · rw [hnone] at hnext
        cases hnext

/-- A load that is stopped at a stage is accounted for by the stage. -/
theorem accounted_stopped (hb : c.vault.Begins c.bytes image m w) {u : Vault}
    (hread : Run.readModule (s.resolveWithin c.depth) m image w = .error e u)
    (h : StopsFor m.id e u) : c.Accounted s e u := by
  cases h with
  | rejected hrejected => exact .of_rejection hrejected
  | exhausted hnone =>
      refine ⟨nofun, fun cause hroot _ => Or.inr (Or.inl ?_)⟩
      cases hroot
      exact ⟨rfl, hnone⟩
  | @circular className _ hcircular =>
      refine ⟨nofun, fun cause hroot _ => Or.inr (Or.inr ⟨c, .refl, ?_, fun _ => rfl⟩)⟩
      cases hroot
      exact ⟨image, m, w, u, className, hb, hread, rfl, hcircular⟩

/-- A load is accounted for if the loads that it makes are. -/
theorem accounted_of_nested (hs : c.vault.Sound) (halive : c.vault.disposed = none)
    (hnested : ∀ c', Nests s c c' → c'.vault.Sound → c'.vault.disposed = none →
      FailsAs (c'.Accounted s) (c'.run s)) : FailsAs (c.Accounted s) (c.run s) := by
  have houtline : Outline (s.resolveWithin c.depth) c.bytes c.vault (c.run s) :=
    loadImage_outline _ _ _
  generalize hresult : c.run s = result at houtline
  intro e v' h
  cases houtline with
  | refused hrefuses hgrants =>
      cases h
      exact accounted_refused halive hrefuses hgrants
  | cyclic =>
      cases h
      exact ⟨nofun, nofun⟩
  | completed => cases h
  | @abandoned image m w u _ hb hread =>
      cases h
      have hstubbed := hb.stubbed hs (R := fun _ => True) True.intro fun _ _ _ _ => True.intro
      have haccounted := readModule_stops (resolveWithin_safe s c.depth) hstubbed image
        (P := fun e u => Run.readModule (s.resolveWithin c.depth) m image w = .error e u →
          c.Accounted s e u)
        (fun e u hstops hread => accounted_stopped hb hread hstops)
        (fun entry version m' u reason w' hrequest hfailed _ =>
          accounted_request hnested hs halive hb hrequest hfailed) e u hread hread
      exact haccounted.of_tokens rfl

/-- Every load is accounted for, by recursion over the loads that it makes. -/
theorem accounted (s : Searcher) (c : LoadCall) (hs : c.vault.Sound)
    (halive : c.vault.disposed = none) : FailsAs (c.Accounted s) (c.run s) := by
  obtain ⟨depth, bytes, v⟩ := c
  induction depth generalizing bytes v with
  | zero => exact accounted_of_nested hs halive fun c' hnests => nomatch hnests
  | succ depth ih =>
      refine accounted_of_nested hs halive fun c' hnests hs' halive' => ?_
      cases hnests with
      | intro => exact ih _ _ hs' halive'

end LoadCall

/-- A load that fails in a reachable vault which is not disposed fails neither for an unresolved
class nor for a corrupt state, unless a number could not be granted or classes of one module extend
each other in a circle. -/
theorem Searcher.load_corruption (s : Searcher) {bytes : Wire.Bytes} {v v' : Vault} {e : Failure}
    (hv : v.Reachable) (halive : v.disposed = none) (hload : s.load bytes v = .error e v') :
    LoadCall.Accounted s ⟨s.depth, bytes, v⟩ e v' :=
  LoadCall.accounted s ⟨s.depth, bytes, v⟩ hv.sound halive e v' hload

/-- Two classes of which each extends the other: the load looks as if the vault were corrupt. -/
theorem Searcher.load_corruption_circle : ∃ (image : ModuleImage) (bytes : Wire.Bytes)
    (v v' : Vault) (e : Failure), image.encode = .ok bytes ∧ v.Reachable ∧ v.disposed = none ∧
      Searcher.load {} bytes v = .error e v' ∧ e.code? = some .stateCorrupt ∧
      LoadCall.Accounted {} ⟨Searcher.depth {}, bytes, v⟩ e v' := by
  obtain ⟨image, hrun⟩ : ∃ image : ModuleImage,
      (create {} {}).toOption.any fun v => image.encode.toOption.any fun bytes =>
        (failureOf? (Searcher.load {} bytes v)).any fun e =>
          v.disposed.isNone && e.code? = some .stateCorrupt :=
    ⟨{ nameIndex := 0
       versionIndex := 1
       strings := [⟨0, "ring"⟩, ⟨1, "1.0"⟩]
       typeNames := [⟨0, "ring", "", "Left"⟩, ⟨1, "ring", "", "Right"⟩]
       fieldNames := []
       dependencies := []
       classes := [⟨0, 0, [1], [], []⟩, ⟨1, 0, [0], [], []⟩]
       aliases := []
       generics := []
       constants := [] }, by decide +kernel⟩
  obtain ⟨v, hcreated, hrun⟩ := (Option.any_eq_true _ _).1 hrun
  obtain ⟨bytes, hencoded, hrun⟩ := (Option.any_eq_true _ _).1 hrun
  obtain ⟨e, hfailed, hrun⟩ := (Option.any_eq_true _ _).1 hrun
  rw [Bool.and_eq_true, Option.isNone_iff_eq_none, decide_eq_true_iff] at hrun
  have hv : v.Reachable := ⟨{}, {}, v, toOption_eq_some.1 hcreated, .refl v⟩
  have hload := eq_error_of_failureOf? hfailed
  exact ⟨image, bytes, v, _, e, toOption_eq_some.1 hencoded, hv, hrun.1, hload, hrun.2,
    Searcher.load_corruption {} hv hrun.1 hload⟩

end VaultKernel
