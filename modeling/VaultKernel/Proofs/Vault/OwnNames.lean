import Mathlib.Data.List.Find
import VaultKernel.Proofs.Aspect.Distribution
import VaultKernel.Proofs.Vault.Corruption

/-!
# What the own classes of a module are called

A load defines classes at two places: a stub for each name of the image that belongs to the module
and names no class yet, and at the end the class that every module gets, whatever is there already.
All other stages leave the names of all classes alone (`SameTitles`). `readModule_titled` is the
statement to read first: it lists the names that the own classes have after a load, in order, and
says to which of them the aspects of the image went.
-/

namespace VaultKernel

open Arena Classes Vault

namespace Vault

/-- What a class is called, and the aspects of the class itself. -/
def title? (v : Vault) (r : ClassRef) : Option (TypeName × List Aspect) :=
  (v.class? r).map fun c => (c.name, c.aspects)

/-- The own classes have these names, in order, and no aspects yet. -/
def Titled (v : Vault) (m : Module) (names : List TypeName) : Prop :=
  m.ownClasses.map v.title? = names.map fun n => some (n, [])

/-- All classes are called what they were called, and have the aspects that they had. -/
def SameTitles (v v' : Vault) : Prop := ∀ r, v'.title? r = v.title? r

end Vault

variable {R : Vault → Prop} {v v' w : Vault} {m m' : Module} {linked : List ClassRef}
  {names : List TypeName}

/-! ## Steps -/

theorem Vault.SameTitles.refl (v : Vault) : v.SameTitles v := fun _ => rfl

/-- Titles are those of the classes and of nothing else. -/
theorem Vault.SameTitles.of_classes (h : v.SameTitles w) (hclasses : v'.classes = w.classes) :
    v.SameTitles v' := by
  intro r
  rw [← h r, title?, title?, class?, class?, hclasses]

/-- Rewriting a class keeps all titles if it leaves the name and the aspects alone. -/
theorem Vault.SameTitles.changeClass (h : v.SameTitles w) {ref : ClassRef} {f : Class → Class}
    (hf : ∀ c, (f c).name = c.name ∧ (f c).aspects = c.aspects) :
    v.SameTitles { w with classes := w.classes.modify ref f } := by
  intro r
  rw [← h r, title?, title?, class?, class?, get?_modify]
  split
  · rw [Option.map_map]
    congr 1
    funext c
    exact Prod.ext (hf c).1 (hf c).2
  · rfl

/-- Laying out keeps all titles. -/
theorem Vault.SameTitles.relaid (h : v.SameTitles w) {refs : List ClassRef} {classes : Classes}
    (hr : Relaid w.classes refs classes) : v.SameTitles { w with classes } := by
  intro r
  rw [← h r, title?, title?, class?, class?]
  cases he : w.classes.entry? r with
  | none => rw [get?, get?, he, hr.absent r he]
  | some p =>
      obtain ⟨owner, c⟩ := p
      obtain ⟨layout, he', _⟩ := hr.present r owner c he
      rw [get?, get?, he, he']
      rfl

/-- A module is called the same as long as no title changes. -/
theorem Vault.Titled.same (ht : v.Titled m names) (h : v.SameTitles v')
    (hown : m'.ownClasses = m.ownClasses) : v'.Titled m' names := by
  rw [Titled, hown, ← ht]
  exact List.map_congr_left fun r _ => h r

/-- A definition adds a name at the end. -/
theorem Vault.Titled.define (ht : v.Titled m names) (hl : Loading R m linked v)
    (tokens : TokenCounter) {c : Class} (haspects : c.aspects = []) :
    ({ v with tokens, classes := (v.classes.allocate m.id.toNat c).2 } : Vault).Titled
      (m.addOwn (v.classes.allocate m.id.toNat c).1) (names ++ [c.name]) := by
  have hall := allocate_spec hl.sound.arena hl.sound.hasRoom m.id.toNat c
  have hold : ∀ r ∈ m.ownClasses,
      ({ v with tokens, classes := (v.classes.allocate m.id.toNat c).2 } : Vault).title? r =
        v.title? r := by
    intro r hr
    obtain ⟨d, he⟩ := hl.entry? hr
    rw [title?, title?, class?, class?, get?, get?, he, hall.extends.entry? he]
  rw [Titled, Module.ownClasses_addOwn, List.map_append, List.map_append, List.map_congr_left hold,
    ht, List.map_singleton, List.map_singleton, title?, class?, get?, hall.entry?_self]
  exact congrArg _ (congrArg (fun aspects => [some (c.name, aspects)]) haspects)

/-! ## Type names -/

/-- The name of an entry. -/
def Image.TypeNameEntry.typeName (e : Image.TypeNameEntry) : TypeName :=
  TypeName.ofParts e.assembly e.space e.name

/-- An entry names a class that a module with the given name has to define itself. -/
def Image.TypeNameEntry.Declares (module : String) (e : Image.TypeNameEntry) : Prop :=
  e.assembly = module ∧ CoreType.find? e.typeName = none

instance (module : String) : DecidablePred (Image.TypeNameEntry.Declares module) := fun e =>
  inferInstanceAs (Decidable (e.assembly = module ∧ CoreType.find? e.typeName = none))

/-- The names of the classes that a module has to define itself, each one once. -/
def declaredNames (module : String) (entries : List Image.TypeNameEntry) : List TypeName :=
  ((entries.filter (Image.TypeNameEntry.Declares module ·)).map (·.typeName)).eraseDups

/-- The declared names are those of the entries that the module has to define itself. -/
theorem mem_declaredNames {module : String} {entries : List Image.TypeNameEntry} {n : TypeName} :
    n ∈ declaredNames module entries ↔
      ∃ e ∈ entries, Image.TypeNameEntry.Declares module e ∧ e.typeName = n := by
  simp [declaredNames, and_assoc]

/-- No name is declared twice. -/
theorem nodup_declaredNames (module : String) (entries : List Image.TypeNameEntry) :
    (declaredNames module entries).Nodup := Aspect.nodup_eraseDups _

/-- One entry more adds its name, unless it is there already or is not for the module to define. -/
theorem declaredNames_concat (module : String) (entries : List Image.TypeNameEntry)
    (e : Image.TypeNameEntry) :
    declaredNames module (entries ++ [e]) =
      if Image.TypeNameEntry.Declares module e ∧ e.typeName ∉ declaredNames module entries then
        declaredNames module entries ++ [e.typeName]
      else declaredNames module entries := by
  unfold declaredNames
  rw [List.filter_append]
  by_cases hdeclares : Image.TypeNameEntry.Declares module e
  · have hlast : [e].filter (Image.TypeNameEntry.Declares module ·) = [e] := by simp [hdeclares]
    rw [hlast, List.map_append, List.map_singleton, Aspect.eraseDups_concat]
    simp only [hdeclares, true_and, List.mem_eraseDups, ite_not]
  · have hlast : [e].filter (Image.TypeNameEntry.Declares module ·) = [] := by simp [hdeclares]
    rw [hlast, List.append_nil, if_neg fun h => hdeclares h.1]

/-- The own class of a name is the first one with that title. -/
theorem Vault.ownClass?_eq (v : Vault) (m : Module) (n : TypeName) :
    v.ownClass? m n = m.ownClasses.find? fun r => (v.title? r).map (·.1) = some n := by
  unfold ownClass? title?
  congr 1
  funext r
  cases v.class? r <;> simp

/-- The titles of the own classes are the names in their order. -/
theorem Vault.Titled.names_eq (ht : v.Titled m names) :
    (m.ownClasses.map fun r => (v.title? r).map (·.1)) = names.map some := by
  have hmapped := congrArg (List.map (Option.map Prod.fst)) ht
  rwa [List.map_map, List.map_map] at hmapped

/-- An own class is found by a name exactly if it is one of the names. -/
theorem Vault.Titled.ownClass?_isNone (ht : v.Titled m names) (n : TypeName) :
    (v.ownClass? m n).isNone ↔ n ∉ names := by
  have hmem : n ∈ names ↔ ∃ r ∈ m.ownClasses, (v.title? r).map (·.1) = some n := by
    rw [← List.mem_map, ht.names_eq, List.mem_map]
    simp
  rw [ownClass?_eq, Option.isNone_iff_eq_none, List.find?_eq_none, hmem]
  simp

/-- One entry adds its name, if it declares one that is new. -/
theorem readTypeName_titled (hs : Stubbed R m v) {done : List Image.TypeNameEntry}
    (ht : v.Titled m (declaredNames m.name done)) (e : Image.TypeNameEntry) :
    Ends (Run.readTypeName m e v)
      (fun m' v' => v'.Titled m' (declaredNames m.name (done ++ [e]))) fun _ => True := by
  have hinsert : ∀ (m' : Module) (v' : Vault),
      v'.Titled m' (declaredNames m.name (done ++ [e])) →
      Ends ((pure { m' with types := m'.types.insert e.index e.typeName } : Run Module) v')
        (fun m' v' => v'.Titled m' (declaredNames m.name (done ++ [e]))) fun _ => True :=
    fun m' v' h => h
  rw [declaredNames_concat] at hinsert ⊢
  unfold Run.readTypeName
  refine Ends.get ?_
  cases hcore : CoreType.find? (TypeName.ofParts e.assembly e.space e.name) with
  | some t =>
      have hnot : ¬ Image.TypeNameEntry.Declares m.name e := fun h => by
        cases hcore.symm.trans h.2
      refine hinsert _ _ ?_
      rw [if_neg fun h => hnot h.1]
      exact ht.same (.refl v) (Module.mention_frame m t.ref).2.1
  | none =>
      dsimp only
      have hiff : (e.assembly = m.name ∧
          (v.ownClass? m (TypeName.ofParts e.assembly e.space e.name)).isNone) ↔
          Image.TypeNameEntry.Declares m.name e ∧ e.typeName ∉ declaredNames m.name done := by
        rw [ht.ownClass?_isNone]
        exact and_congr_left fun _ => ⟨fun h => ⟨h, hcore⟩, And.left⟩
      split
      · next hnew =>
          refine (Ends.map ?_).bind hinsert
          refine (defineClass_spec (E := fun _ => True) trivial _ _).imp fun p v' hp => ?_
          obtain ⟨c, classId, tokens, _, rfl, rfl, rfl⟩ := hp
          rw [if_pos (hiff.1 hnew)]
          exact ht.define hs.toLoading tokens rfl
      · next hold =>
          refine hinsert _ _ ?_
          rw [if_neg fun h => hold (hiff.2 h)]
          exact ht

/-- The entries add the names that they declare. -/
theorem readTypeNames_titled (hs : Stubbed R m v) {done : List Image.TypeNameEntry}
    (ht : v.Titled m (declaredNames m.name done)) (es : List Image.TypeNameEntry) :
    Ends (es.foldlM Run.readTypeName m v)
      (fun m' v' => v'.Titled m' (declaredNames m.name (done ++ es))) fun _ => True := by
  induction es generalizing m v done with
  | nil =>
      rw [List.append_nil]
      exact ht
  | cons e es ih =>
      rw [List.foldlM_cons, ← List.singleton_append, ← List.append_assoc]
      have hfirst := ((readTypeName_spec hs e).and (readTypeName_titled hs ht e)).mono
        (fun _ _ => id) fun _ _ => trivial
      refine hfirst.bind fun m' v' h => ?_
      obtain ⟨⟨hs', hevolves⟩, ht'⟩ := h
      rw [← hevolves.name] at ht' ⊢
      exact ih hs' ht'

/-- Field names bring no classes. -/
theorem ownClasses_readFieldNames (m : Module) (es : List Image.FieldNameEntry) :
    (es.foldl Run.readFieldName m).ownClasses = m.ownClasses := by
  induction es generalizing m with
  | nil => rfl
  | cons e es ih => exact ih (Run.readFieldName m e)

/-! ## Dependencies -/

/-- Other modules come and go without the own classes. -/
theorem Vault.Titled.keep (ht : v.Titled m names) (hl : Loading R m linked v) (hk : v.Keeps v') :
    v'.Titled m names := by
  rw [Titled, ← ht]
  refine List.map_congr_left fun r hr => ?_
  obtain ⟨c, he⟩ := hl.entry? hr
  have halone : ∀ m' ∈ v.modules.toList, m'.id.toNat ≠ m.id.toNat :=
    fun m' hm' heq => hl.alone m' hm' (UInt16.toNat_inj.1 heq)
  rw [title?, title?, class?, class?, get?, get?, he, hk.kept r _ c he hl.number.2 halone]

/-- A dependency leaves the own classes and their names alone. -/
theorem readDependency_titled {resolve : Resolver} (hresolve : resolve.Safe)
    (hl : Loading R m linked v) (ht : v.Titled m names) (e : Image.DependencyEntry) :
    Ends (Run.readDependency resolve m e v) (fun m' v' => v'.Titled m' names) fun _ => True := by
  unfold Run.readDependency
  refine Ends.bind (R := fun _ v' => v' = v) (Ends.answer (fun _ _ => rfl) trivial) ?_
  rintro version v rfl
  split
  · exact ht
  · have hsupplied : Ends (Run.mapFailure (Run.dependencyFailure e.name version m.name)
        (resolve e.name version) v) (fun _ => v.Safe) fun _ => True :=
      Ends.mapFailure ((hresolve e.name version v hl.sound).mono (fun _ _ => id) fun _ _ => trivial)
    exact hsupplied.bind fun id w hsafe => (ht.keep hl hsafe.keeps).same (.refl w) rfl

/-- Dependencies leave the own classes and their names alone. -/
theorem readDependencies_titled {resolve : Resolver} (hresolve : resolve.Safe)
    (hs : Stubbed (fun _ => True) m v) (ht : v.Titled m names) (es : List Image.DependencyEntry) :
    Ends (es.foldlM (Run.readDependency resolve) m v)
      (fun m' v' => Stubbed (fun _ => True) m' v' ∧ m'.name = m.name ∧ v'.Titled m' names)
      fun _ => True := by
  refine Ends.foldlM (fun m' e v' _ h => ?_) ⟨hs, rfl, ht⟩
  obtain ⟨hs', hname, ht'⟩ := h
  have hspec := readDependency_spec (R := fun _ _ => True) (fun _ _ _ _ _ => trivial) hs' e
    fun version _ _ => (hresolve e.name version v' hs'.sound).mono
      (fun _ _ h => ⟨h.sound, h.keeps, trivial⟩) fun _ h => ⟨h.sound, h.keeps, trivial⟩
  refine (hspec.and (readDependency_titled hresolve hs'.toLoading ht' e)).mono (fun m'' v'' h => ?_)
    fun _ _ => trivial
  exact ⟨h.1.1, h.1.2.2.trans hname, h.2⟩

/-! ## Classes -/

/-- Declaring a class does not rename it. -/
theorem declareClass_titles (h : v.SameTitles w) (m : Module) (body : Image.ClassBody) :
    Ends (Run.declareClass m body w) (fun _ w' => v.SameTitles w') fun _ => True := by
  unfold Run.declareClass
  cases m.types.get? body.name with
  | none => trivial
  | some name =>
      refine Ends.get ?_
      cases w.ownClass? m name with
      | none => trivial
      | some ref => exact h.changeClass fun c => ⟨rfl, rfl⟩

/-- Completing a class does not rename it. -/
theorem completeClass_titles (h : v.SameTitles w) (s : Symbols) (c : Run.ResolvedClass) :
    Ends (Run.completeClass s c w) (fun _ w' => v.SameTitles w') fun _ => True := by
  unfold Run.completeClass
  have hmethods : Ends ((c.methods.mapM fun x => Run.answer (x.complete s)) w)
      (fun _ w' => v.SameTitles w') fun _ => True := by
    refine (Ends.mapM (R := fun _ _ => True) (fun x w' _ hw' => ?_) h).imp fun _ _ hw' => hw'.1
    exact Ends.answer (fun _ _ => ⟨hw', trivial⟩) trivial
  refine hmethods.bind fun methods w' hw' => Ends.get ?_
  cases w'.class? c.declared.ref with
  | none => trivial
  | some _ => exact hw'.changeClass fun d => ⟨rfl, rfl⟩

/-- Completing classes renames none. -/
theorem completeClasses_titles (h : v.SameTitles w) (s : Symbols)
    (classes : List Run.ResolvedClass) :
    Ends (classes.forM (Run.completeClass s) w) (fun _ w' => v.SameTitles w') fun _ => True :=
  Ends.forM (fun _ w => v.SameTitles w) [] (fun _ c _ _ hw => completeClass_titles hw s c) h

/-- Reading the class bodies renames no class and adds none. -/
theorem readClasses_titles (m : Module) (image : ModuleImage) (v : Vault) :
    Ends (Run.readClasses m image v)
      (fun m' v' => v.SameTitles v' ∧ m'.ownClasses = m.ownClasses) fun _ => True := by
  unfold Run.readClasses
  have hdeclare : Ends (image.classes.mapM (Run.declareClass m) v)
      (fun _ w => v.SameTitles w) fun _ => True :=
    (Ends.mapM (R := fun _ _ => True)
      (fun body w _ hw => (declareClass_titles hw m body).imp fun _ _ hw' => ⟨hw', trivial⟩)
      (.refl v)).imp fun _ _ hw => hw.1
  refine hdeclare.bind fun declared v₁ h₁ => Ends.get ?_
  dsimp only
  have hresolved : ∀ {α : Type} (x : Except Unresolved α),
      Ends (Run.resolved x v₁) (fun _ w => w = v₁) fun _ => True :=
    fun x => Ends.resolved (fun _ _ => rfl) trivial
  refine (hresolved _).bind fun generics w hw => ?_
  subst hw
  refine (hresolved _).bind fun classes w' hw => ?_
  subst hw
  refine (hresolved _).bind fun aliases w hw => ?_
  subst hw
  refine (completeClasses_titles h₁ _ classes).bind fun _ w hw => ?_
  have hcheck : Ends (m.ownClasses.forM Run.checkCompleted w) (fun _ w' => w' = w) fun _ => True :=
    Ends.forM_check fun ref _ => checkCompleted_spec trivial ref
  refine hcheck.bind fun _ w' hsame => ?_
  rw [hsame]
  exact ⟨hw, rfl⟩

/-! ## The class of the runtime -/

/-- The name of the class that every module gets. -/
def TypeName.bootstrapper (module : String) : TypeName :=
  TypeName.ofParts module Run.systemSpace Run.bootstrapperName

/-- The class that every module gets is new, comes last and has its name. -/
theorem defineBootstrapper_titled (hl : Loading R m linked v) (ht : v.Titled m names) :
    Ends (Run.defineBootstrapper m v) (fun m' v' =>
      v'.Titled m' (names ++ [TypeName.bootstrapper m.name]) ∧
        ∃ r ∉ m.ownClasses, m' = { m.addOwn r with bootstrapper := some r }) fun _ => True := by
  unfold Run.defineBootstrapper
  refine (defineClass_spec (E := fun _ => True) trivial _ _).bind fun p v' hp => ?_
  obtain ⟨c, classId, tokens, _, hc, rfl, rfl⟩ := hp
  have hdefined := ht.define hl tokens (c := c) (by rw [hc])
  rw [show c.name = TypeName.bootstrapper m.name by rw [hc]; rfl] at hdefined
  refine ⟨hdefined.same (SameTitles.changeClass (.refl _) fun c => ⟨rfl, rfl⟩) rfl, _,
    fun hmem => ?_, rfl⟩
  -- an own class is stored, and nothing was stored in the new slot
  obtain ⟨d, he⟩ := hl.entry? hmem
  have hvacant := (allocate_spec hl.sound.arena hl.sound.hasRoom m.id.toNat c).vacant
  rw [ownerAt?, (entry?_eq_some_iff.1 he).2] at hvacant
  cases hvacant

/-! ## Aspects -/

/-- The class that an aspect names is the first own class with that name. -/
theorem Vault.ownNamed?_eq (v : Vault) (m : Module) (query : String) :
    m.ownNamed? v.classes query =
      m.ownClasses.find? fun r => (v.title? r).any (·.1.isNamed query) := by
  unfold Module.ownNamed? title? class?
  congr 1
  funext r
  cases v.classes.get? r <;> rfl

/-- The aspects of a class as a whole are those of its title. -/
theorem Vault.aspectsOf_whole (v : Vault) (r : ClassRef) :
    v.classes.aspectsOf r .whole = ((v.title? r).map (·.2)).getD [] := by
  unfold Classes.aspectsOf title? class?
  cases v.classes.get? r <;> rfl

/-- The own classes have these names, in order, and each has those aspects for whole classes that
name it as the first own class. -/
structure Vault.Outfitted (v : Vault) (m : Module) (names : List TypeName) (aspects : List Aspect) :
    Prop where
  names : (m.ownClasses.map fun r => (v.title? r).map (·.1)) = names.map some
  reached : ∀ a ∈ aspects, ∀ query, a.target = .class query → ∀ r ∈ m.ownClasses,
    a ∈ v.classes.aspectsOf r .whole ↔ m.ownNamed? v.classes query = some r

/-- The own classes have the same names and aspects as long as their titles are the same. -/
theorem Vault.Outfitted.same {aspects : List Aspect} (h : v.Outfitted m names aspects)
    (hsame : ∀ r ∈ m.ownClasses, v'.title? r = v.title? r) : v'.Outfitted m names aspects := by
  refine ⟨?_, fun a ha query htarget r hr => ?_⟩
  · rw [← h.names]
    exact List.map_congr_left fun r hr => by rw [hsame r hr]
  · have hnamed : m.ownNamed? v'.classes query = m.ownNamed? v.classes query := by
      rw [ownNamed?_eq, ownNamed?_eq]
      exact List.find?_congr fun q hq => by rw [hsame q hq]
    rw [aspectsOf_whole, hsame r hr, ← aspectsOf_whole, hnamed]
    exact h.reached a ha query htarget r hr

/-- An aspect for a whole class is for the first own class with the name. -/
theorem placeOf_whole {classes : Classes} {a : Aspect} {query : String} {r : ClassRef}
    (htarget : a.target = .class query) :
    m.placeOf classes a = some (r, .whole) ↔ m.ownNamed? classes query = some r := by
  simp only [Module.placeOf, htarget, AspectTarget.className, Class.partFor?,
    Option.bind_eq_bind, Option.bind_eq_some_iff]
  constructor
  · rintro ⟨_, hnamed, _, _, _, _, h⟩
    cases h
    exact hnamed
  · intro hnamed
    have hfits := List.find?_some hnamed
    cases hr : classes.get? r with
    | none =>
        rw [hr] at hfits
        cases hfits
    | some c => exact ⟨r, hnamed, c, hr, .whole, rfl, rfl⟩

/-- Before the aspects are distributed no class has one. -/
theorem Vault.Titled.aspectsOf_whole (ht : v.Titled m names) {r : ClassRef}
    (hr : r ∈ m.ownClasses) : v.classes.aspectsOf r .whole = [] := by
  have hmem : v.title? r ∈ m.ownClasses.map v.title? := List.mem_map_of_mem hr
  rw [ht, List.mem_map] at hmem
  obtain ⟨n, _, htitle⟩ := hmem
  rw [v.aspectsOf_whole, ← htitle]
  rfl

/-- Each aspect goes to the class that it names first; the names stay. -/
theorem distribute_outfitted (hl : Loading R m linked v) (hb : v.Bodied m) (ht : v.Titled m names)
    {constants : ConstantTable} (haspects : m.aspects = Aspect.ofConstants constants) :
    Ends (Run.onClasses m.distribute v)
      (fun m' v' => v'.Outfitted m' names (Aspect.ofConstants constants) ∧
        ∃ left, m' = { m with aspects := left }) fun _ => False := by
  have hnodup : m.aspects.Nodup := by
    rw [haspects]
    exact (Aspect.nodup_ofConstants constants).of_map
  have hfresh : ∀ a ∈ m.aspects, ∀ r, m.placeOf v.classes a = some (r, .whole) →
      a ∉ v.classes.aspectsOf r .whole := by
    intro a _ r hplace
    rw [ht.aspectsOf_whole (Module.placeOf_eq_some_iff.1 hplace).mem]
    simp
  obtain ⟨left, classes', hrun, hspread⟩ :=
    Module.attachAll_spread hnodup (fun r hr c hc => hb.resolved hl hr hc) hfresh
  have hdistribute : m.distribute v.classes = .ok { m with aspects := left } classes' :=
    bind_of_eq_ok hrun rfl
  refine Ends.onClasses ?_
  rw [hdistribute]
  refine ⟨⟨?_, fun a ha query htarget r hr => ?_⟩, left, rfl⟩
  · rw [← ht.names_eq]
    refine List.map_congr_left fun r _ => ?_
    have hbare : (classes'.get? r).map Class.bare = (v.classes.get? r).map Class.bare := by
      rw [← get?_map, ← get?_map]
      exact congrArg (·.get? r) hspread.bare
    have hname := congrArg (Option.map Class.name) hbare
    simpa [title?, class?, Function.comp_def, Class.bare] using hname
  · show a ∈ classes'.aspectsOf r .whole ↔ m.ownNamed? classes' query = some r
    rw [hspread.attached, ht.aspectsOf_whole hr, List.nil_append, List.mem_filter, haspects,
      ← Module.ownNamed?_bare, hspread.bare, Module.ownNamed?_bare, ← placeOf_whole htarget]
    simp [ha]

/-! ## Native methods and layouts -/

/-- Linking renames no class. -/
theorem linkClasses_titles (h : v.SameTitles w) (m : Module) :
    Ends (Run.linkClasses m w) (fun _ w' => v.SameTitles w') fun _ => True := by
  unfold Run.linkClasses
  refine Ends.get ?_
  have hlinked : Ends (Run.onRegistry (w.classes.linked m.ownClasses) w)
      (fun _ w' => v.SameTitles w') fun _ => True :=
    Ends.onRegistry (Ends.of_forall (fun _ _ => h.of_classes rfl) fun _ => trivial)
  refine hlinked.bind fun pairs w' hw' => ?_
  exact Ends.forM (fun _ w => v.SameTitles w) []
    (fun _ p _ _ hw => hw.changeClass fun c => ⟨rfl, rfl⟩) hw'

/-- Laying a class out does not rename it. -/
theorem layOut_titles (h : v.SameTitles w) (r : ClassRef) :
    Ends (Run.layOut r w) (fun _ w' => v.SameTitles w') fun _ => True := by
  unfold Run.layOut
  refine Ends.get ?_
  cases w.classes.layoutChain r with
  | error cause => trivial
  | ok chain => exact h.relaid (Relaid.foldl chain w.classes)

/-- Linking and laying out keep the module and the titles. -/
theorem linkAndLayOut_titles (m : Module) (v : Vault) :
    Ends ((do Run.linkClasses m; m.ownClasses.forM Run.layOut; return m : Run Module) v)
      (fun m' v' => m' = m ∧ v.SameTitles v') fun _ => True := by
  refine (linkClasses_titles (.refl v) m).bind fun _ w hw => ?_
  have hlaid : Ends (m.ownClasses.forM Run.layOut w) (fun _ w' => v.SameTitles w') fun _ => True :=
    Ends.forM (fun _ w => v.SameTitles w) [] (fun _ r _ _ hw => layOut_titles hw r) hw
  exact hlaid.bind fun _ w' hw' => ⟨rfl, hw'⟩

/-! ## Whole modules -/

/-- The class that every module gets comes after all others. -/
structure Module.Booted (m : Module) (others : List ClassRef) (boot : ClassRef) : Prop where
  own : m.ownClasses = others ++ [boot]
  fresh : boot ∉ others
  bootstrapper : m.bootstrapper = some boot

/-- The own classes of a module that has a name and declares classes: what they are called, which
aspects they have, and which of them every module gets. -/
structure Vault.Furnished (v : Vault) (m : Module) (name : String) (declared : List TypeName)
    (aspects : List Aspect) : Prop
    extends v.Outfitted m (declared ++ [TypeName.bootstrapper name]) aspects where
  name : m.name = name
  booted : ∃ others boot, m.Booted others boot

/-- Finishing a module adds the class that every module gets and distributes the aspects. -/
theorem finishModule_titled (hd : Drafting R m [] v) (hb : v.Bodied m) (ht : v.Titled m names)
    (versionIndex : Int32) :
    Ends (Run.finishModule m versionIndex v)
      (fun m' v' => v'.Furnished m' m.name names (Aspect.ofConstants m.constants))
      fun _ => True := by
  unfold Run.finishModule
  refine (moduleString_spec (E := fun _ => True) trivial m versionIndex).bind fun text v' h => ?_
  subst h
  have hversion : Ends (Run.answer (Version.read text) v') (fun _ s => s = v') fun _ => True :=
    Ends.answer (fun _ _ => rfl) trivial
  refine hversion.bind fun version v h => ?_
  subst h
  have hread : Drafting R { m with version, aspects := Aspect.ofConstants m.constants } [] v :=
    hd.withModule rfl rfl (List.Subset.refl _) hd.referred
  have hboot := ((defineBootstrapper_spec hread).and (defineBootstrapper_bodied hread hb)).and
    (defineBootstrapper_titled hread.toLoading (ht.same (.refl v) rfl))
  refine (hboot.mono (fun _ _ => id) fun _ _ => trivial).bind fun m₁ v₁ h₁ => ?_
  obtain ⟨⟨⟨hd₁, _⟩, hb₁⟩, ht₁, boot, hfresh, hdefined⟩ := h₁
  have haspects : m₁.aspects = Aspect.ofConstants m.constants := by rw [hdefined]; rfl
  have hdistribute := distribute_outfitted hd₁.toLoading hb₁ ht₁ haspects
  refine (hdistribute.mono (fun _ _ => id) fun _ _ => trivial).bind fun m₂ v₂ h₂ => ?_
  obtain ⟨hout, left, hleft⟩ := h₂
  have hname : m₂.name = m.name := by rw [hleft, hdefined]; rfl
  have hbooted : m₂.Booted m.ownClasses boot := by
    rw [hleft, hdefined]
    exact ⟨Module.ownClasses_addOwn _ _, hfresh, rfl⟩
  have hlast : Ends ((do Run.linkClasses m₂; m₂.ownClasses.forM Run.layOut; return m₂ : Run Module)
      v₂) (fun m' v' => v'.Furnished m' m.name names (Aspect.ofConstants m.constants))
      fun _ => True := by
    refine (linkAndLayOut_titles m₂ v₂).imp fun m' v' h => ?_
    obtain ⟨rfl, hsame⟩ := h
    exact ⟨hout.same fun r _ => hsame r, hname, _, boot, hbooted⟩
  refine Ends.get ?_
  cases v₂.config.validateTokens with
  | false => exact hlast
  | true =>
      have hchecked := Ends.forM_check fun r (_ : r ∈ m₂.ownClasses) =>
        checkToken_spec (E := fun _ => True) (v := v₂) trivial r
      refine hchecked.bind fun _ v₃ hsame => ?_
      subst hsame
      exact hlast

/-- What the own classes of a module are called after a load, in order: each class that the image
declares, and at last the one that every module gets. -/
theorem readModule_titled {resolve : Resolver} (hresolve : resolve.Safe) {bytes : Wire.Bytes}
    {image : ModuleImage} (hs : v.Sound) (hb : v.Begins bytes image m w) :
    Ends (Run.readModule resolve m image w) (fun m' v' =>
      v'.Furnished m' m.name (declaredNames m.name image.typeNames)
        (Aspect.ofConstants (.ofEntries image.constants))) fun _ => True := by
  have hstubbed := hb.stubbed hs (R := fun _ => True) trivial fun _ _ _ _ => trivial
  have hbegun : w.Titled m (declaredNames m.name []) := by
    rw [Titled, hb.bare]
    rfl
  unfold Run.readModule
  have hnames := (readTypeNames_spec hstubbed image.typeNames).and
    (readTypeNames_titled hstubbed hbegun image.typeNames)
  refine (hnames.mono (fun _ _ => id) fun _ _ => trivial).bind fun m₁ v₁ h₁ => ?_
  obtain ⟨⟨hs₁, hevolves₁⟩, ht₁⟩ := h₁
  obtain ⟨hs₂, hevolves₂⟩ := readFieldNames_spec hs₁ image.fieldNames
  have ht₂ := ht₁.same (.refl v₁) (ownClasses_readFieldNames m₁ image.fieldNames)
  refine (readDependencies_titled hresolve hs₂ ht₂ image.dependencies).bind fun m₃ v₃ h₃ => ?_
  obtain ⟨hs₃, hname₃, ht₃⟩ := h₃
  have hspec := readClasses_spec hs₃.toDrafting image
  have hclasses := (hspec.and (readClasses_bodied m₃ image v₃)).and (readClasses_titles m₃ image v₃)
  refine (hclasses.mono (fun _ _ => id) fun _ _ => trivial).bind fun m₄ v₄ h₄ => ?_
  obtain ⟨⟨⟨hd₄, hevolves₄⟩, hb₄⟩, hsame₄, hown₄⟩ := h₄
  have hname : m₄.name = m.name :=
    hevolves₄.name.trans (hname₃.trans (hevolves₂.name.trans hevolves₁.name))
  have hread : Drafting (fun _ => True)
      { m₄ with constants := ConstantTable.ofEntries image.constants } [] v₄ :=
    hd₄.withModule rfl rfl (List.Subset.refl _) hd₄.referred
  rw [← hname] at ht₃ ⊢
  exact finishModule_titled hread hb₄ (ht₃.same hsame₄ hown₄) image.versionIndex

end VaultKernel
