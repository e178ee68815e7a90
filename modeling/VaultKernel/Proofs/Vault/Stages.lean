import VaultKernel.Proofs.Vault.LoadInvariant
import VaultKernel.Proofs.Vault.Steps

/-!
# The stages of a load

Each stage carries the invariant of a load on, and whatever stops it leaves a vault in which what
the stage stored can be removed by its owner (`Stopped`). The stages that read tables define stubs
and resolve dependencies; `readClasses` puts members in place that refer to visible classes.
-/

namespace VaultKernel

open Arena Classes Vault

variable {R : Vault → Prop} {v : Vault} {m : Module} {linked : List ClassRef}

/-! ## Tables -/

/-- A stub refers to nothing, so it is well-formed. -/
theorem Class.formed_stub (name : TypeName) {flags : ClassFlags} (token : Token) (owner : ModuleId)
    (hflags : flags.unresolved → flags.notCompleted) (ok : ClassRef → Prop) (done : Bool) :
    ({ name, flags, token, owner } : Class).Formed ok done :=
  ⟨by simp, by simp, by simp, hflags⟩

/-- Defining a class grants a number and stores the class. -/
theorem defineClass_spec {E : Vault → Prop} (hv : E v) (name : TypeName) (flags : ClassFlags) :
    Ends (Run.defineClass m name flags v)
      (fun p v' => ∃ (c : Class) (classId : UInt16) (tokens : TokenCounter),
        v.tokens.nextClass? = some (classId, tokens) ∧
        c = { name, flags, token := ⟨m.id, classId⟩, owner := m.id } ∧
        p = ((v.classes.allocate m.id.toNat c).1, m.addOwn (v.classes.allocate m.id.toNat c).1) ∧
        v' = { v with tokens, classes := (v.classes.allocate m.id.toNat c).2 }) E := by
  unfold Run.defineClass
  have hgrant : Ends (Run.grantClassId v)
      (fun classId v' => ∃ tokens, v.tokens.nextClass? = some (classId, tokens) ∧
        v' = { v with tokens }) E := by
    unfold Run.grantClassId
    cases h : v.tokens.nextClass? with
    | none => exact hv
    | some p => exact ⟨p.2, rfl, rfl⟩
  refine hgrant.bind fun classId v' hv' => ?_
  obtain ⟨tokens, hnext, rfl⟩ := hv'
  exact ⟨_, classId, tokens, hnext, rfl, rfl, rfl⟩

/-- An entry of the type table makes a stub or mentions a class that is there. -/
theorem readTypeName_spec (hs : Stubbed R m v) (e : Image.TypeNameEntry) :
    Ends (Run.readTypeName m e v) (fun m' v' => Stubbed R m' v' ∧ m.Evolves m')
      (Stopped R m.id) := by
  have hinsert : ∀ (m' : Module) (v' : Vault), Stubbed R m' v' ∧ m.Evolves m' →
      Ends ((pure { m' with
          types := m'.types.insert e.index (TypeName.ofParts e.assembly e.space e.name) } :
            Run Module) v')
        (fun m' v' => Stubbed R m' v' ∧ m.Evolves m') (Stopped R m.id) :=
    fun m' v' h =>
      Ends.pure ⟨h.1.withModule rfl rfl (List.Subset.refl _) rfl, h.2.trans ⟨rfl, rfl, rfl⟩⟩
  unfold Run.readTypeName
  refine Ends.get ?_
  cases CoreType.find? (TypeName.ofParts e.assembly e.space e.name) with
  | some t =>
      obtain ⟨hevolves, hown, hrefs⟩ := Module.mention_frame m t.ref
      refine hinsert _ _ ⟨hs.withModule hevolves.id hown ?_ hrefs, hevolves⟩
      simp [hevolves.dependencies]
  | none =>
      dsimp only
      split
      · refine (Ends.map ?_).bind hinsert
        refine (defineClass_spec hs.stopped _ _).imp fun p v' hp => ?_
        obtain ⟨c, classId, tokens, hnext, hc, rfl, rfl⟩ := hp
        refine ⟨hs.define hnext c (by rw [hc]) (by rw [hc]) (by rw [hc]) fun ok done => ?_,
          rfl, rfl, rfl⟩
        rw [hc]
        exact Class.formed_stub _ _ _ (fun _ => rfl) ok done
      · exact hinsert _ _ ⟨hs, .refl m⟩

/-- The type table makes stubs of all classes of the module. -/
theorem readTypeNames_spec (hs : Stubbed R m v) (es : List Image.TypeNameEntry) :
    Ends (es.foldlM Run.readTypeName m v) (fun m' v' => Stubbed R m' v' ∧ m.Evolves m')
      (Stopped R m.id) := by
  refine Ends.foldlM (fun m' e v' _ h => ?_) ⟨hs, .refl m⟩
  rw [← h.2.id]
  exact (readTypeName_spec h.1 e).imp fun _ _ h' => ⟨h'.1, h.2.trans h'.2⟩

/-- Field names bring no classes. -/
theorem readFieldNames_spec (hs : Stubbed R m v) (es : List Image.FieldNameEntry) :
    Stubbed R (es.foldl Run.readFieldName m) v ∧ m.Evolves (es.foldl Run.readFieldName m) := by
  induction es generalizing m with
  | nil => exact ⟨hs, .refl m⟩
  | cons e es ih =>
      have hfirst : Stubbed R (Run.readFieldName m e) v :=
        hs.withModule rfl rfl (List.Subset.refl _) rfl
      have hsame : m.Evolves (Run.readFieldName m e) := ⟨rfl, rfl, rfl⟩
      obtain ⟨hs', hevolves⟩ := ih hfirst
      exact ⟨hs', hsame.trans hevolves⟩

/-! ## Dependencies -/

/-- A module asks its resolver for a dependency: those before it are resolved and it was not listed
before. The module is `m'` and the vault `w` by then. -/
structure Run.Asks (resolve : Resolver) (m : Module) (es : List Image.DependencyEntry) (v : Vault)
    (e : Image.DependencyEntry) (version : Version) (m' : Module) (w : Vault) : Prop where
  earlier : ∃ before after, es = before ++ e :: after ∧
    before.foldlM (Run.readDependency resolve) m v = .ok m' w
  readable : Version.read e.version = .ok version
  unlisted : (m'.dependencies.any fun d => d.name = e.name && d.version = version) = false

/-- A request that was made for some of the dependencies is one that is made for more of them.
-/
theorem Run.Asks.append {resolve : Resolver} {es : List Image.DependencyEntry}
    {e : Image.DependencyEntry} {version : Version} {m' : Module} {w : Vault}
    (h : Run.Asks resolve m es v e version m' w) (more : List Image.DependencyEntry) :
    Run.Asks resolve m (es ++ more) v e version m' w := by
  obtain ⟨before, after, rfl, hearlier⟩ := h.earlier
  exact ⟨⟨before, after ++ more, by simp, hearlier⟩, h.readable, h.unlisted⟩

/-- A resolver leaves sound vaults sound, and keeps what a load that is under way relies on. What is
to be known may depend on the dependencies that are resolved. -/
def Resolver.Serves (resolve : Resolver) (R : List Dependency → Vault → Prop) (m' : Module)
    (name : String) (version : Version) (w : Vault) : Prop :=
  Ends (resolve name version w)
    (fun id w' => w'.Sound ∧ w.Keeps w' ∧ R (m'.dependencies ++ [⟨name, version, id⟩]) w')
    fun w' => w'.Sound ∧ w.Keeps w' ∧ R m'.dependencies w'

/-- A dependency is resolved and entered, or listed already. -/
theorem readDependency_spec {resolve : Resolver} {R : List Dependency → Vault → Prop}
    (hundisturbed : ∀ ds w w', R ds w → Private m.id w w' → R ds w')
    (hs : Stubbed (R m.dependencies) m v) (e : Image.DependencyEntry)
    (hresolve : ∀ version, Version.read e.version = .ok version →
      (m.dependencies.any fun d => d.name = e.name && d.version = version) = false →
      resolve.Serves R m e.name version v) :
    Ends (Run.readDependency resolve m e v)
      (fun m' v' => Stubbed (R m'.dependencies) m' v' ∧ m'.id = m.id ∧ m'.name = m.name)
      (Stopped (fun w => ∃ ds, R ds w) m.id) := by
  have hstopped : ∀ {w}, Stubbed (R m.dependencies) m w →
      Stopped (fun w => ∃ ds, R ds w) m.id w := fun hs => hs.stopped.mono fun _ h => ⟨_, h⟩
  unfold Run.readDependency
  refine Ends.bind (R := fun version v' => Version.read e.version = .ok version ∧ v' = v)
    (Ends.answer (fun _ h => ⟨h, rfl⟩) (hstopped hs)) ?_
  rintro version v ⟨hversion, rfl⟩
  split
  · exact ⟨hs, rfl, rfl⟩
  · next hlisted =>
      -- whether the module is supplied or not, others may have come and gone
      have hstep := hresolve version hversion (by simpa using hlisted)
      refine (Ends.mapFailure (hstep.mono (fun id w h => ?_) fun w h => ?_)).bind
        (R := fun id w => Stubbed (R (m.dependencies ++ [⟨e.name, version, id⟩])) m w) ?_
      · obtain ⟨hsound, hkeeps, hR⟩ := h
        have hfree : Stubbed (fun _ => True) m v := hs.withRest trivial fun _ _ _ _ => trivial
        exact (hfree.keep hsound hkeeps trivial).withRest hR (hundisturbed _)
      · exact hstopped (hs.keep h.1 h.2.1 h.2.2)
      · intro supplied w hs'
        exact ⟨hs'.withModule rfl rfl (List.subset_append_left _ _) rfl, rfl, rfl⟩

/-- The dependencies are resolved one after the other, each after those before it. -/
theorem readDependencies_spec {resolve : Resolver} {R : List Dependency → Vault → Prop}
    (hundisturbed : ∀ ds w w', R ds w → Private m.id w w' → R ds w')
    (hs : Stubbed (R m.dependencies) m v) (es : List Image.DependencyEntry)
    (hresolve : ∀ e version m' w, Run.Asks resolve m es v e version m' w → w.Sound →
      R m'.dependencies w → resolve.Serves R m' e.name version w) :
    Ends (es.foldlM (Run.readDependency resolve) m v)
      (fun m' v' => Stubbed (R m'.dependencies) m' v' ∧ m'.id = m.id ∧ m'.name = m.name)
      (Stopped (fun w => ∃ ds, R ds w) m.id) := by
  refine Ends.foldlM_split (fun before e after m' w hes hfold h => ?_) ⟨hs, rfl, rfl⟩
  obtain ⟨hs', hid, hname⟩ := h
  rw [← hid, ← hname]
  refine readDependency_spec (by rwa [hid]) hs' e fun version hversion hunlisted => ?_
  exact hresolve e version m' w ⟨⟨before, after, hes, hfold⟩, hversion, hunlisted⟩ hs'.sound
    hs'.around

/-! ## Classes -/

/-- A class that the module finds by name is one of its own. -/
theorem Vault.mem_ownClasses_of_ownClass? {name : TypeName} {ref : ClassRef}
    (h : v.ownClass? m name = some ref) : ref ∈ m.ownClasses :=
  List.mem_of_find?_eq_some h

/-- The class of a body is one of the own ones, and declaring it leaves the load where it is. -/
theorem declareClass_spec (hd : Drafting R m linked v) (body : Image.ClassBody) :
    Ends (Run.declareClass m body v)
      (fun d v' => Drafting R m linked v' ∧ d.ref ∈ m.ownClasses) (Stopped R m.id) := by
  unfold Run.declareClass
  cases m.types.get? body.name with
  | none => exact hd.stopped
  | some name =>
      refine Ends.get ?_
      cases hown : v.ownClass? m name with
      | none => exact hd.stopped
      | some ref =>
          have hmem := Vault.mem_ownClasses_of_ownClass? hown
          refine ⟨hd.changeClass hmem (fun _ _ _ => Iff.rfl) fun c hc => ?_, hmem⟩
          have hformed := hd.formed ref c hmem hc
          exact ⟨rfl, rfl, rfl, hformed.parent, hformed.fields, hformed.methods, fun _ => rfl⟩

/-- A class whose members refer to visible classes can be completed. -/
theorem completeClass_spec (hd : Drafting R m [] v) {s : Symbols} (hs : s.Within (v.Visible m))
    {c : Run.ResolvedClass} (hc : c.Within (v.Visible m)) (hown : c.declared.ref ∈ m.ownClasses) :
    Ends (Run.completeClass s c v)
      (fun _ v' => Drafting R m [] v' ∧ ∀ r, v.Visible m r → v'.Visible m r)
      (Stopped R m.id) := by
  unfold Run.completeClass
  have hmethods : Ends ((c.methods.mapM fun m => Run.answer (m.complete s)) v)
      (fun methods v' => v' = v ∧
        ∀ d ∈ methods, ∃ x ∈ c.methods, x.complete s = .ok d) (Stopped R m.id) := by
    refine Ends.mapM (fun x v' _ hv' => ?_) rfl
    subst v'
    exact Ends.answer (fun d h => ⟨rfl, h⟩) hd.stopped
  refine hmethods.bind fun methods v' hdone => ?_
  obtain ⟨rfl, hdone⟩ := hdone
  refine Ends.get ?_
  cases v'.class? c.declared.ref with
  | none => exact hd.stopped
  | some _ =>
      refine ⟨hd.changeClass hown (fun _ _ _ => Iff.rfl) fun d _ => ⟨rfl, rfl, rfl, ?_⟩, fun r hr =>
        hr.changeClass fun d _ hlayout => hlayout⟩
      refine ⟨hc.parent, hc.fields, fun d' hd' => ?_, fun h => by cases h⟩
      obtain ⟨x, hx, hcomplete⟩ := hdone d' hd'
      exact hs.complete (hc.methods x hx) hcomplete

/-- The classes are completed one after the other, and what is visible stays visible. -/
theorem completeClasses_spec (hd : Drafting R m [] v) {s : Symbols} (hs : s.Within (v.Visible m))
    {classes : List Run.ResolvedClass}
    (hclasses : ∀ c ∈ classes, c.Within (v.Visible m) ∧ c.declared.ref ∈ m.ownClasses) :
    Ends (classes.forM (Run.completeClass s) v)
      (fun _ v' => Drafting R m [] v' ∧ ∀ r, v.Visible m r → v'.Visible m r)
      (Stopped R m.id) := by
  refine Ends.forM (fun _ v' => Drafting R m [] v' ∧ ∀ r, v.Visible m r → v'.Visible m r) []
    (fun _ c v' hc hv' => ?_) ⟨hd, fun _ => id⟩
  obtain ⟨hd', hvisible⟩ := hv'
  obtain ⟨hwithin, hown⟩ := hclasses c hc
  refine (completeClass_spec hd' (hs.mono hvisible) (hwithin.mono hvisible) hown).imp ?_
  exact fun _ v'' h => ⟨h.1, fun r hr => h.2 r (hvisible r hr)⟩

/-- The check that a class is completed changes nothing. -/
theorem checkCompleted_spec {E : Vault → Prop} (hv : E v) (ref : ClassRef) :
    Ends (Run.checkCompleted ref v) (fun _ v' => v' = v) E := by
  unfold Run.checkCompleted
  refine Ends.get ?_
  cases v.class? ref with
  | none => rfl
  | some c =>
      dsimp only
      cases c.isCompleted with
      | false => exact hv
      | true => rfl

/-- The class bodies are read into classes that refer to visible classes only. -/
theorem readClasses_spec (hd : Drafting R m [] v) (image : ModuleImage) :
    Ends (Run.readClasses m image v) (fun m' v' => Drafting R m' [] v' ∧ m.Evolves m')
      (Stopped R m.id) := by
  unfold Run.readClasses
  have hdeclare : Ends (image.classes.mapM (Run.declareClass m) v)
      (fun declared v' => Drafting R m [] v' ∧
        ∀ d ∈ declared, ∃ body ∈ image.classes, d.ref ∈ m.ownClasses) (Stopped R m.id) :=
    Ends.mapM (fun body v' _ hd' => declareClass_spec hd' body) hd
  refine hdeclare.bind fun declared v' hdeclared => ?_
  obtain ⟨hd', hown⟩ := hdeclared
  refine Ends.get ?_
  dsimp only
  -- generic parameters are resolved first, with no others in sight
  have hbare := hd'.symbols_within (show ∀ e ∈ ({} : Table Int32 GenericParam).entries, _ by simp)
  refine Ends.bind (R := fun generics v'' => v'' = v' ∧
    ∀ e ∈ generics, ∀ r ∈ e.2.refs, v'.Visible m r) ?_ ?_
  · refine Ends.resolved (fun generics h => ⟨rfl, fun e he => ?_⟩) hd'.stopped
    obtain ⟨entry, _, hentry⟩ := exists_of_mapM_eq_ok h e he
    exact hbare.generic hentry
  rintro generics v'' ⟨rfl, hgenerics⟩
  have hsymbols := hd'.symbols_within
    (show ∀ e ∈ (Table.ofList generics).entries, _ from fun e he =>
      hgenerics e (Table.mem_ofList.1 he))
  refine Ends.bind (R := fun classes v' => v' = v'' ∧
    ∀ c ∈ classes, c.Within (v''.Visible m) ∧ c.declared ∈ declared) ?_ ?_
  · exact Ends.resolved (fun classes h => ⟨rfl, hsymbols.resolveClasses h⟩) hd'.stopped
  rintro classes v' ⟨rfl, hclasses⟩
  refine Ends.bind (R := fun aliases v'' => v'' = v' ∧
    ∀ a ∈ aliases, ∀ r ∈ a.refs, v'.Visible m r) ?_ ?_
  · refine Ends.resolved (fun aliases h => ⟨rfl, fun a ha => ?_⟩) hd'.stopped
    obtain ⟨entry, _, hentry⟩ := exists_of_mapM_eq_ok h a ha
    exact hsymbols.alias hentry
  rintro aliases v'' ⟨rfl, haliases⟩
  have hown' : ∀ c ∈ classes, c.Within (v''.Visible m) ∧ c.declared.ref ∈ m.ownClasses := by
    intro c hc
    obtain ⟨hwithin, hmem⟩ := hclasses c hc
    obtain ⟨_, _, href⟩ := hown _ hmem
    exact ⟨hwithin, href⟩
  refine (completeClasses_spec hd' hsymbols hown').bind fun _ v' hv' => ?_
  obtain ⟨hd, hvisible⟩ := hv'
  -- the check only refuses; that classes are complete follows from their layouts
  refine (Ends.forM_check fun ref _ => checkCompleted_spec hd.stopped ref).bind fun _ v'' hv'' => ?_
  subst v''
  refine ⟨hd.withModule rfl rfl (List.Subset.refl _) fun r hr => hvisible r ?_, rfl, rfl, rfl⟩
  rcases List.mem_append.1 hr with hr | hr
  · obtain ⟨a, ha, hr⟩ := List.mem_flatMap.1 hr
    exact haliases a ha r hr
  · obtain ⟨e, he, hr⟩ := List.mem_flatMap.1 hr
    exact hgenerics e (Table.mem_ofList.1 he) r hr

end VaultKernel
