import VaultKernel.Proofs.Native.Linking
import VaultKernel.Proofs.Vault.LoadInvariant
import VaultKernel.Proofs.Vault.Steps

/-!
# The same load in two vaults

Two vaults in which the same image is loaded, and whatever else they hold: at every stage the module
of one is the renamed module of the other, and so are its classes (`Paired`). A stage fails in both
vaults in the same way or in neither, unless one of them runs out of numbers. There is one lemma a
stage, up to `readModule_twins`.
-/

namespace VaultKernel

open Arena

/-- A number could not be granted. -/
def Failure.Exhaustion (e : Failure) : Prop :=
  e = .fatal .moduleIdsExhausted ∨ e = .fatal .classIdsExhausted

open Failure

namespace Vault

/-- Two vaults that hold the same module up to a renaming, and in which `n` more classes will be the
same, as far as there are class numbers for them. -/
structure Twins (ρ : Renaming) (n : Nat) (m : Module) (v v' : Vault) : Prop where
  classes : v.classes.Twins ρ (min n (65535 - v.tokens.lastClass.toNat)) m v'.classes
  numbers : ∀ k, ρ.classIds (v.tokens.lastClass + k) = v'.tokens.lastClass + k
  config : v'.config = v.config
  registry : v.registry.Interchangeable v'.registry
  alone : m.dependencies = []
  numbered : m.id ≠ 0 ∧ ρ.modules m.id ≠ 0

/-- A stage ended with the same module in both vaults. -/
def Paired (ρ : Renaming) (n : Nat) (m : Module) (v : Vault) (m' : Module) (v' : Vault) : Prop :=
  m' = m.rename ρ ∧ Twins ρ n m v v'

end Vault

variable {ρ : Renaming} {n : Nat} {m m₁ : Module} {v v' : Vault} {r : ClassRef} {α α' β β' : Type}

/-! ## Steps -/

/-- Answers that do not depend on the vault. -/
theorem Agrees.answerThen {excused : Failure → Prop} {Q : β → Vault → β' → Vault → Prop}
    {x : Except Failure α} {x' : Except Failure α'} {g : α → α'} {next : α → Run β}
    {next' : α' → Run β'} (hx : x' = g <$> x)
    (hnext : ∀ a, x = .ok a → Agrees excused Q (next a v) (next' (g a) v')) :
    Agrees excused Q ((Run.answer x >>= next) v) ((Run.answer x' >>= next') v') := by
  subst hx
  cases x with
  | error e => exact .failed e v v'
  | ok a => exact hnext a rfl

/-- Two runs that go on from a resolution agree if they do so for what it answers. -/
theorem Agrees.resolvedThen {excused : Failure → Prop} {Q : β → Vault → β' → Vault → Prop}
    {x : Except Unresolved α} {x' : Except Unresolved α'} {g : α → α'} {next : α → Run β}
    {next' : α' → Run β'} (hx : x' = g <$> x)
    (hnext : ∀ a, x = .ok a → Agrees excused Q (next a v) (next' (g a) v')) :
    Agrees excused Q ((Run.resolved x >>= next) v) ((Run.resolved x' >>= next') v') := by
  subst hx
  cases x with
  | error e => exact .failed (Failure.unresolved e) v v'
  | ok a => exact hnext a rfl

/-- Two runs that edit classes agree if the edits agree. -/
theorem Agrees.onClasses {excused : Failure → Prop} {Q : α → Vault → α' → Vault → Prop}
    {edit : EStateM Failure Classes α} {edit' : EStateM Failure Classes α'}
    (hedit : Agrees excused
      (fun a cs a' cs' => Q a { v with classes := cs } a' { v' with classes := cs' })
      (edit v.classes) (edit' v'.classes)) :
    Agrees excused Q (Run.onClasses edit v) (Run.onClasses edit' v') := by
  unfold Run.onClasses
  generalize edit v.classes = run at hedit ⊢
  generalize edit' v'.classes = run' at hedit ⊢
  cases hedit with
  | excusedLeft he => exact .excusedLeft he
  | excusedRight he => exact .excusedRight he
  | failed e => exact .failed e _ _
  | done hdone => exact .done hdone

/-- Two runs that link agree if the linkers agree. -/
theorem Agrees.onRegistry {excused : Failure → Prop} {Q : α → Vault → α' → Vault → Prop}
    {linker : Linker α} {linker' : Linker α'}
    (hlinker : Agrees excused
      (fun a t a' t' => Q a { v with registry := t } a' { v' with registry := t' })
      (linker v.registry) (linker' v'.registry)) :
    Agrees excused Q (Run.onRegistry linker v) (Run.onRegistry linker' v') := by
  unfold Run.onRegistry
  generalize linker v.registry = run at hlinker ⊢
  generalize linker' v'.registry = run' at hlinker ⊢
  cases hlinker with
  | excusedLeft he => exact .excusedLeft he
  | excusedRight he => exact .excusedRight he
  | failed e => exact .failed e _ _
  | done hdone => exact .done hdone

namespace Vault.Twins

/-- What a module reads besides its classes does not matter to the pair of vaults. -/
theorem withModule (h : Twins ρ n m v v') (hid : m₁.id = m.id)
    (hown : m₁.ownClasses = m.ownClasses) (hdependencies : m₁.dependencies = m.dependencies) :
    Twins ρ n m₁ v v' :=
  ⟨h.classes.withModule hid hown, h.numbers, h.config, h.registry, hdependencies.trans h.alone,
    hid ▸ h.numbered⟩

/-- The pair of vaults is judged by the classes once everything else is the same. -/
theorem withClasses (h : Twins ρ n m v v') {classes classes' : Classes}
    (hclasses : classes.Twins ρ (min n (65535 - v.tokens.lastClass.toNat)) m classes') :
    Twins ρ n m { v with classes } { v' with classes := classes' } :=
  ⟨hclasses, h.numbers, h.config, h.registry, h.alone, h.numbered⟩

/-- The same vaults will also have one class less in common. -/
theorem fewer (h : Twins ρ (n + 1) m v v') : Twins ρ n m v v' :=
  ⟨h.classes.fewer (by omega), h.numbers, h.config, h.registry, h.alone, h.numbered⟩

/-- Both vaults hold the own classes. -/
theorem ownClass (h : Twins ρ n m v v') (hr : r ∈ m.ownClasses) :
    ∃ c, v.class? r = some c ∧ v'.class? (ρ.classes r) = some (c.rename ρ) ∧ m.Admits c :=
  h.classes.own r hr

/-- An own class is changed in the same way in both vaults. -/
theorem changeClass {excused : Failure → Prop} (h : Twins ρ n m v v') (hr : r ∈ m.ownClasses)
    {f f' : Class → Class}
    (hf : ∀ c, v.class? r = some c → m.Admits c → f' (c.rename ρ) = (f c).rename ρ ∧
      m.Admits (f c) ∧ (c.layout.isSome → (f c).layout.isSome)) :
    Agrees excused (fun _ w _ w' => Twins ρ n m w w') (Run.changeClass r f v)
      (Run.changeClass (ρ.classes r) f' v') :=
  .done (h.withClasses (h.classes.modify hr hf))

/-- The own class of a name is the renamed own class. -/
theorem ownClass? (h : Twins ρ n m v v') (name : TypeName) :
    v'.ownClass? (m.rename ρ) name = (v.ownClass? m name).map ρ.classes :=
  h.classes.find?_own (p := fun c => c.name = name) fun _ => rfl

/-- The module sees the same classes in both vaults. -/
theorem visibleClasses (h : Twins ρ n m v v') :
    v'.visibleClasses (m.rename ρ) = (v.visibleClasses m).map ρ.classes := by
  have hcore : CoreType.all.map (fun t => (t.name, t.ref)) =
      (CoreType.all.map fun t => (t.name, t.ref)).map fun e => (e.1, ρ.classes e.2) := by
    simp [ρ.core]
  have hown : ((m.rename ρ).ownClasses.filterMap fun ref =>
        (v'.class? ref).map fun c => (c.name, ref)) =
      (m.ownClasses.filterMap fun ref => (v.class? ref).map fun c => (c.name, ref)).map
        fun e => (e.1, ρ.classes e.2) := by
    rw [Module.ownClasses_rename, List.filterMap_map, List.map_filterMap]
    refine List.filterMap_congr fun ref href => ?_
    obtain ⟨c, hc, hc', _⟩ := h.ownClass href
    simp [hc, hc', Class.rename]
  unfold Vault.visibleClasses
  rw [Table.map_ofList, List.map_append, ← hcore]
  simp only [show (m.rename ρ).dependencies = [] by simp [Module.rename, h.alone], h.alone,
    List.filterMap_nil, List.nil_append, List.flatMap_cons, List.flatMap_nil, List.append_nil, hown]

/-- The tables of one module are the renamed tables of the other. -/
theorem symbols (h : Twins ρ n m v v') (generics : Table Int32 GenericParam) :
    { m.rename ρ with generics := generics.map (GenericParam.rename ρ) }.symbols
      (v'.visibleClasses (m.rename ρ)) CoreType.object.ref =
    ({ m with generics }.symbols (v.visibleClasses m) CoreType.object.ref).rename ρ := by
  have hrenamed := Module.symbols_rename ρ { m with generics } (v.visibleClasses m)
    CoreType.object.ref
  rw [ρ.core] at hrenamed
  rw [h.visibleClasses]
  exact hrenamed

/-- What the tables of the module lead to are its own classes and predefined ones. -/
theorem within (h : Twins ρ n m v v') {generics : Table Int32 GenericParam}
    (hgenerics : ∀ e ∈ generics.entries, ∀ r ∈ e.2.refs, m.Sees r) :
    ({ m.symbols (v.visibleClasses m) CoreType.object.ref with generics } : Symbols).Within
      m.Sees := by
  refine ⟨fun e he => ?_, hgenerics, Or.inr ⟨.object, rfl⟩⟩
  change e ∈ (v.visibleClasses m).entries at he
  unfold Vault.visibleClasses at he
  rw [Table.mem_ofList, List.mem_append, h.alone] at he
  rcases he with he | he
  · obtain ⟨t, _, rfl⟩ := List.mem_map.1 he
    exact Or.inr ⟨t, rfl⟩
  · simp only [List.filterMap_nil, List.nil_append, List.flatMap_cons, List.flatMap_nil,
      List.append_nil] at he
    obtain ⟨ref, href, hentry⟩ := List.mem_filterMap.1 he
    obtain ⟨c, _, rfl⟩ := Option.map_eq_some_iff.1 hentry
    exact Or.inl href

end Vault.Twins

open Vault

/-! ## Tables -/

/-- Two vaults grant renamed class numbers, unless one of them has none left. -/
theorem grantClassId_twins (h : Twins ρ n m v v') :
    Agrees Exhaustion
      (fun id w id' w' => id' = ρ.classIds id ∧ ∃ tokens tokens', w = { v with tokens } ∧
        w' = { v' with tokens := tokens' } ∧
        tokens.lastClass.toNat = v.tokens.lastClass.toNat + 1 ∧
        ∀ k, ρ.classIds (tokens.lastClass + k) = tokens'.lastClass + k)
      (Run.grantClassId v) (Run.grantClassId v') := by
  unfold Run.grantClassId TokenCounter.nextClass? TokenCounter.following?
  by_cases hlast : v.tokens.lastClass = 65535
  · rw [if_pos hlast]
    exact .excusedLeft (Or.inr rfl)
  by_cases hlast' : v'.tokens.lastClass = 65535
  · rw [if_pos hlast']
    exact .excusedRight (Or.inr rfl)
  rw [if_neg hlast, if_neg hlast']
  have hnext : (v.tokens.lastClass + 1).toNat = v.tokens.lastClass.toNat + 1 :=
    Classes.following?_eq_some (if_neg hlast)
  refine .done ⟨(h.numbers 1).symm, _, _, rfl, rfl, hnext, fun k => ?_⟩
  rw [UInt16.add_assoc, UInt16.add_assoc]
  exact h.numbers (1 + k)

/-- A class that is defined in both vaults is the same up to the renaming. -/
theorem defineClass_twins (h : Twins ρ (n + 1) m v v') (name : TypeName) (flags : ClassFlags) :
    Agrees Exhaustion
      (fun p w p' w' => p' = (ρ.classes p.1, p.2.rename ρ) ∧ p.1 ∈ p.2.ownClasses ∧
        Twins ρ n p.2 w w')
      (Run.defineClass m name flags v) (Run.defineClass (m.rename ρ) name flags v') := by
  unfold Run.defineClass
  refine (grantClassId_twins h).bind fun classId w _ w' hgrant => ?_
  obtain ⟨rfl, tokens, tokens', rfl, rfl, hnext, hnumbers⟩ := hgrant
  have hleft : min (n + 1) (65535 - v.tokens.lastClass.toNat) =
      min n (65535 - tokens.lastClass.toNat) + 1 := by
    have hlt := tokens.lastClass.toNat_lt
    omega
  have hadmits : m.Admits { name, flags, token := ⟨m.id, classId⟩, owner := m.id } :=
    ⟨rfl, nofun⟩
  obtain ⟨href, hclasses⟩ := (hleft ▸ h.classes).allocate hadmits m.id.toNat (ρ.modules m.id).toNat
  refine .done ⟨Prod.ext href.symm ?_, ?_, hclasses, hnumbers, h.config, h.registry, h.alone,
    h.numbered⟩
  · exact (congrArg _ href.symm).trans (m.addOwn_rename ρ _)
  · rw [Module.ownClasses_addOwn]
    simp

/-- An entry of the type table is read alike in both vaults. -/
theorem readTypeName_twins (h : Twins ρ (n + 1) m v v') (e : Image.TypeNameEntry) :
    Agrees Exhaustion (Paired ρ n) (Run.readTypeName m e v)
      (Run.readTypeName (m.rename ρ) e v') := by
  have hinsert : ∀ {m₁ : Module} {w w' : Vault}, Twins ρ n m₁ w w' → ∀ name,
      Paired ρ n { m₁ with types := m₁.types.insert e.index name } w
        { m₁.rename ρ with types := (m₁.rename ρ).types.insert e.index name } w' :=
    fun h _ => ⟨rfl, h.withModule rfl rfl rfl⟩
  unfold Run.readTypeName
  dsimp only
  rw [get_bind, get_bind, h.ownClass?]
  cases CoreType.find? (TypeName.ofParts e.assembly e.space e.name) with
  | some t =>
      obtain ⟨hevolves, hown, _⟩ := Module.mention_frame m t.ref
      have hmention : (m.rename ρ).mention t.ref = (m.mention t.ref).rename ρ := by
        have hsame := m.mention_rename ρ t.ref
        rwa [ρ.core] at hsame
      dsimp only
      rw [hmention]
      exact .done (hinsert (h.fewer.withModule hevolves.id hown hevolves.dependencies) _)
  | none =>
      dsimp only
      simp only [Option.isNone_map, show (m.rename ρ).name = m.name from rfl]
      split
      · refine Agrees.bind (R := Paired ρ n) (Agrees.map ?_) fun m₁ w _ w' h₁ => ?_
        · exact (defineClass_twins h _ _).imp fun p w p' w' hp => ⟨by rw [hp.1], hp.2.2⟩
        · obtain ⟨rfl, h₁⟩ := h₁
          exact .done (hinsert h₁ _)
      · exact .done (hinsert h.fewer _)

/-- The type table is read alike in both vaults. -/
theorem readTypeNames_twins {es : List Image.TypeNameEntry}
    (h : Twins ρ (n + es.length) m v v') :
    Agrees Exhaustion (Paired ρ n) (es.foldlM Run.readTypeName m v)
      (es.foldlM Run.readTypeName (m.rename ρ) v') := by
  induction es generalizing m v v' with
  | nil => exact .done ⟨rfl, h⟩
  | cons e es ih =>
      rw [List.foldlM_cons, List.foldlM_cons]
      refine (readTypeName_twins (n := n + es.length) h e).bind fun m₁ w _ w' h₁ => ?_
      obtain ⟨rfl, h₁⟩ := h₁
      exact ih h₁

/-- The field names are read alike in both vaults. -/
theorem readFieldNames_twins (h : Twins ρ n m v v') (es : List Image.FieldNameEntry) :
    Paired ρ n (es.foldl Run.readFieldName m) v (es.foldl Run.readFieldName (m.rename ρ)) v' := by
  induction es generalizing m with
  | nil => exact ⟨rfl, h⟩
  | cons e es ih => exact ih (m := Run.readFieldName m e) (h.withModule rfl rfl rfl)

/-! ## Classes -/

/-- A class is declared alike in both vaults. -/
theorem declareClass_twins (h : Twins ρ n m v v') (body : Image.ClassBody) :
    Agrees Exhaustion
      (fun d w d' w' => Twins ρ n m w w' ∧ d' = d.rename ρ ∧ d.ref ∈ m.ownClasses)
      (Run.declareClass m body v) (Run.declareClass (m.rename ρ) body v') := by
  unfold Run.declareClass
  rw [show (m.rename ρ).types = m.types from rfl]
  cases m.types.get? body.name with
  | none => exact .failed _ _ _
  | some name =>
      dsimp only
      rw [get_bind, get_bind, h.ownClass?]
      cases hown : v.ownClass? m name with
      | none => exact .failed _ _ _
      | some ref =>
          have hmem : ref ∈ m.ownClasses := List.mem_of_find?_eq_some hown
          refine Agrees.bind (h.changeClass hmem ?_) fun _ w _ w' hw => .done ⟨hw, rfl, hmem⟩
          exact fun c _ hc => ⟨rfl, ⟨hc.token, hc.parent⟩, id⟩

/-- The classes are declared alike in both vaults. -/
theorem declareClasses_twins (h : Twins ρ n m v v') (bodies : List Image.ClassBody) :
    Agrees Exhaustion
      (fun ds w ds' w' => Twins ρ n m w w' ∧ ds' = ds.map (·.rename ρ) ∧
        ∀ d ∈ ds, d.ref ∈ m.ownClasses)
      (bodies.mapM (Run.declareClass m) v) (bodies.mapM (Run.declareClass (m.rename ρ)) v') :=
  .mapM (g := id) (List.map_id _).symm (fun body _ _ _ hw => declareClass_twins hw body) h

/-- A class is completed alike in both vaults. -/
theorem completeClass_twins (h : Twins ρ n m v v') (s : Symbols) {c : Run.ResolvedClass}
    (hparent : ∀ p, c.parent = some p → m.Sees p) (hown : c.declared.ref ∈ m.ownClasses) :
    Agrees Exhaustion (fun _ w _ w' => Twins ρ n m w w') (Run.completeClass s c v)
      (Run.completeClass (s.rename ρ) (c.rename ρ) v') := by
  unfold Run.completeClass
  have hmethods : Agrees Exhaustion (fun ds w ds' w' => Twins ρ n m w w' ∧
        ds' = ds.map (·.rename ρ) ∧ ∀ d ∈ ds, True)
      (c.methods.mapM (fun x => Run.answer (x.complete s)) v)
      ((c.rename ρ).methods.mapM (fun x => Run.answer (x.complete (s.rename ρ))) v') := by
    refine Agrees.mapM (g := ResolvedMethod.rename ρ) (I := Twins ρ n m) rfl
      (fun x w w' _ hw => ?_) h
    rw [ResolvedMethod.complete_rename]
    cases x.complete s with
    | error e => exact .failed e _ _
    | ok d => exact .done ⟨hw, rfl, trivial⟩
  refine hmethods.bind fun methods w _ w' hw => ?_
  obtain ⟨hw, rfl, _⟩ := hw
  obtain ⟨d, hd, hd', _⟩ := hw.ownClass hown
  rw [get_bind, get_bind, hd, show (c.rename ρ).declared.ref = ρ.classes c.declared.ref from rfl,
    hd']
  exact hw.changeClass hown fun e _ he => ⟨rfl, ⟨he.token, hparent⟩, id⟩

/-- The check that a class is completed passes in both vaults or in neither. -/
theorem checkCompleted_twins (h : Twins ρ n m v v') (hr : r ∈ m.ownClasses) :
    Agrees Exhaustion (fun _ w _ w' => Twins ρ n m w w') (Run.checkCompleted r v)
      (Run.checkCompleted (ρ.classes r) v') := by
  obtain ⟨c, hc, hc', _⟩ := h.ownClass hr
  unfold Run.checkCompleted
  rw [get_bind, get_bind, hc, hc']
  dsimp only
  rw [show (c.rename ρ).isCompleted = c.isCompleted from rfl]
  cases c.isCompleted with
  | true => exact .done h
  | false => exact .failed _ _ _

/-- The class bodies are read alike in both vaults. -/
theorem readClasses_twins (h : Twins ρ n m v v') (image : ModuleImage) :
    Agrees Exhaustion (Paired ρ n) (Run.readClasses m image v)
      (Run.readClasses (m.rename ρ) image v') := by
  unfold Run.readClasses
  refine (declareClasses_twins h image.classes).bind fun declared w _ w' hw => ?_
  obtain ⟨hw, rfl, hown⟩ := hw
  have hgeneric := mapM_eq_map_mapM (fun e =>
    (congrArg (Run.readGeneric · e) (hw.symbols {})).trans (Run.readGeneric_rename ρ _ e))
    image.generics
  rw [get_bind, get_bind]
  refine Agrees.resolvedThen hgeneric fun generics hgenerics => ?_
  have hbare := hw.within (show ∀ e ∈ ({} : Table Int32 GenericParam).entries, _ by simp)
  have hsymbols := hw.within (show ∀ e ∈ (Table.ofList generics).entries, _ from fun e he => by
    obtain ⟨entry, _, hentry⟩ := exists_of_mapM_eq_ok hgenerics e (Table.mem_ofList.1 he)
    exact hbare.generic hentry)
  have hsame : Table.ofList (generics.map (Prod.map id (GenericParam.rename ρ))) =
      (Table.ofList generics).map (GenericParam.rename ρ) := by
    rw [Table.map_ofList]
    rfl
  dsimp only
  rw [hsame, hw.symbols]
  refine Agrees.resolvedThen (Run.resolveClasses_rename ρ _ declared) fun classes hclasses => ?_
  refine Agrees.resolvedThen (mapM_eq_map_mapM (Run.readAlias_rename ρ _) image.aliases)
    fun aliases _ => ?_
  have hcomplete : ∀ s c u u', c ∈ classes → Twins ρ n m u u' →
      Agrees Exhaustion (fun _ w _ w' => Twins ρ n m w w') (Run.completeClass s c u)
        (Run.completeClass (s.rename ρ) (c.rename ρ) u') := by
    intro s c u u' hc hu
    obtain ⟨hwithin, hmem⟩ := hsymbols.resolveClasses hclasses c hc
    exact completeClass_twins hu s hwithin.parent (hown _ hmem)
  refine (Agrees.forM (I := Twins ρ n m) rfl (hcomplete _) hw).bind fun _ u _ u' hu => ?_
  have hread : Twins ρ n { m with generics := Table.ofList generics, aliases } u u' :=
    hu.withModule rfl rfl rfl
  refine (Agrees.forM (I := Twins ρ n { m with generics := Table.ofList generics, aliases })
    (Module.ownClasses_rename ρ _) (fun ref t t' href ht => checkCompleted_twins ht href)
    hread).bind fun _ t _ t' ht => ?_
  exact .done ⟨rfl, ht⟩

/-! ## Finishing -/

/-- The class that every module gets is the same up to the renaming. -/
theorem defineBootstrapper_twins (h : Twins ρ (n + 1) m v v') :
    Agrees Exhaustion (Paired ρ n) (Run.defineBootstrapper m v)
      (Run.defineBootstrapper (m.rename ρ) v') := by
  unfold Run.defineBootstrapper
  refine (defineClass_twins h _ _).bind fun p w p' w' hp => ?_
  obtain ⟨rfl, hmem, hw⟩ := hp
  refine Agrees.bind (hw.changeClass hmem ?_) fun _ u _ u' hu =>
    .done ⟨rfl, hu.withModule rfl rfl rfl⟩
  refine fun c _ hc => ⟨?_, ⟨hc.token, fun q hq => ?_⟩, id⟩
  · simp [Class.rename, ρ.core]
  · cases hq
    exact Or.inr ⟨.object, rfl⟩

/-- The aspects go to the same places in both vaults. -/
theorem distribute_twins (h : Twins ρ n m v v') :
    Agrees Exhaustion (Paired ρ n) (Run.onClasses m.distribute v)
      (Run.onClasses (m.rename ρ).distribute v') := by
  refine Agrees.onClasses (h.classes.distribute.imp fun m₁ cs _ cs' hcs => ?_)
  obtain ⟨⟨rfl, hid, hdependencies⟩, hclasses⟩ := hcs
  exact ⟨rfl, hclasses, h.numbers, h.config, h.registry, hdependencies.trans h.alone,
    hid ▸ h.numbered⟩

/-- Own classes have tokens in both vaults. -/
theorem checkToken_twins (h : Twins ρ n m v v') (hr : r ∈ m.ownClasses) :
    Agrees Exhaustion (fun _ w _ w' => Twins ρ n m w w') (Run.checkToken r v)
      (Run.checkToken (ρ.classes r) v') := by
  obtain ⟨c, hc, hc', hadmits⟩ := h.ownClass hr
  have hset : c.token.isSet := by
    refine decide_eq_true fun heq => h.numbered.1 ?_
    rw [← hadmits.token, heq]
    rfl
  have hset' : (c.rename ρ).token.isSet := by
    refine decide_eq_true fun heq => h.numbered.2 ?_
    rw [← hadmits.token]
    exact congrArg Token.moduleId heq
  unfold Run.checkToken
  rw [ask_bind (classOf_eq_ok.2 hc), ask_bind (classOf_eq_ok.2 hc'), if_pos hset, if_pos hset']
  exact .done h

/-- The native methods are linked alike in both vaults. -/
theorem linkClasses_twins (h : Twins ρ n m v v') :
    Agrees Exhaustion (fun _ w _ w' => Twins ρ n m w w') (Run.linkClasses m v)
      (Run.linkClasses (m.rename ρ) v') := by
  unfold Run.linkClasses
  rw [get_bind, get_bind, Module.ownClasses_rename]
  have hlinked : Agrees Exhaustion
      (fun ps w ps' w' => (ps' = ps.map (Prod.map ρ.classes (List.map (·.rename ρ))) ∧
        ∀ p ∈ ps, p.1 ∈ m.ownClasses) ∧ Twins ρ n m w w')
      (Run.onRegistry (v.classes.linked m.ownClasses) v)
      (Run.onRegistry (v'.classes.linked (m.ownClasses.map ρ.classes)) v') := by
    refine Agrees.onRegistry ((linked_alike h.registry h.classes (List.Subset.refl _)).imp ?_)
    exact fun ps t ps' t' hps =>
      ⟨hps.1, h.classes, h.numbers, h.config, hps.2, h.alone, h.numbered⟩
  refine hlinked.bind fun pairs w _ w' hw => ?_
  obtain ⟨⟨rfl, hown⟩, hw⟩ := hw
  refine Agrees.forM (I := Twins ρ n m) rfl (fun p u u' hp hu => ?_) hw
  exact hu.changeClass (hown p hp) fun c _ hc => ⟨rfl, ⟨hc.token, hc.parent⟩, id⟩

/-- A class is laid out alike in both vaults. -/
theorem layOut_twins (h : Twins ρ n m v v') (hr : r ∈ m.ownClasses) :
    Agrees Exhaustion (fun _ w _ w' => Twins ρ n m w w') (Run.layOut r v)
      (Run.layOut (ρ.classes r) v') := by
  unfold Run.layOut
  rw [get_bind, get_bind, h.classes.layoutChain (Or.inl hr)]
  cases hchain : v.classes.layoutChain r with
  | error cause => exact .failed _ _ _
  | ok chain =>
      have hown := h.classes.mem_layoutChain (Or.inl hr) hchain
      exact .done (h.withClasses (h.classes.assignLayouts hown))

/-- A module is finished alike in both vaults. -/
theorem finishModule_twins (h : Twins ρ (n + 1) m v v') (versionIndex : Int32) :
    Agrees Exhaustion (Paired ρ n) (Run.finishModule m versionIndex v)
      (Run.finishModule (m.rename ρ) versionIndex v') := by
  unfold Run.finishModule Run.moduleString
  rw [show (m.rename ρ).strings = m.strings from rfl, show (m.rename ρ).name = m.name from rfl]
  cases m.strings.get? versionIndex with
  | none => exact .failed _ _ _
  | some text =>
      refine Agrees.answerThen (id_map (Version.read text)).symm fun version _ => ?_
      have hread : Twins ρ (n + 1)
          { m with version, aspects := Aspect.ofConstants m.constants } v v' :=
        h.withModule rfl rfl rfl
      refine (defineBootstrapper_twins hread).bind fun m₁ w _ w' h₁ => ?_
      obtain ⟨rfl, h₁⟩ := h₁
      refine (distribute_twins h₁).bind fun m₂ u _ u' h₂ => ?_
      obtain ⟨rfl, h₂⟩ := h₂
      have hlast : ∀ {t t'}, Twins ρ n m₂ t t' → Agrees Exhaustion (Paired ρ n)
          ((do Run.linkClasses m₂; m₂.ownClasses.forM Run.layOut; return m₂ : Run Module) t)
          ((do Run.linkClasses (m₂.rename ρ); (m₂.rename ρ).ownClasses.forM Run.layOut
               return m₂.rename ρ : Run Module) t') := by
        intro t t' ht
        refine (linkClasses_twins ht).bind fun _ s _ s' hs => ?_
        refine (Agrees.forM (I := Twins ρ n m₂) (Module.ownClasses_rename ρ m₂)
          (fun ref t t' href ht => layOut_twins ht href) hs).bind fun _ t _ t' ht => ?_
        exact .done ⟨rfl, ht⟩
      rw [get_bind, get_bind, h₂.config]
      cases u.config.validateTokens with
      | false => exact hlast h₂
      | true =>
          refine (Agrees.forM (I := Twins ρ n m₂) (Module.ownClasses_rename ρ m₂)
            (fun ref t t' href ht => checkToken_twins ht href) h₂).bind fun _ t _ t' ht => ?_
          exact hlast ht

/-! ## Whole modules -/

/-- An image without dependencies is read alike, whatever the resolvers. -/
theorem readModule_twins {image : ModuleImage} (hdependencies : image.dependencies = [])
    (h : Twins ρ (image.typeNames.length + 1) m v v') (resolve resolve' : Resolver) :
    Agrees Exhaustion (Paired ρ 0) (Run.readModule resolve m image v)
      (Run.readModule resolve' (m.rename ρ) image v') := by
  unfold Run.readModule
  rw [Nat.add_comm] at h
  refine (readTypeNames_twins h).bind fun m₁ w _ w' h₁ => ?_
  obtain ⟨rfl, h₁⟩ := h₁
  obtain ⟨hfields, h₂⟩ := readFieldNames_twins h₁ image.fieldNames
  dsimp only
  rw [hdependencies, hfields]
  refine (readClasses_twins h₂ image).bind fun m₃ u _ u' h₃ => ?_
  obtain ⟨rfl, h₃⟩ := h₃
  have hread : Twins ρ 1 { m₃ with constants := ConstantTable.ofEntries image.constants } u u' :=
    h₃.withModule rfl rfl rfl
  exact finishModule_twins hread image.versionIndex

end VaultKernel
