import VaultKernel.Proofs.Class.Formed
import VaultKernel.Proofs.Vault.Changes

/-!
# Modules that are being loaded

`Loading R m linked v` is the invariant of the load of the module `m` in the vault `v`: the classes
stored under the number of the module are its own ones, and what they refer to is visible to it. `R`
is whatever else is to be known about the vault; the stages of the load must not disturb it.
`Drafting` says in addition that no own class is laid out, which holds until the last stage and is
what keeps other modules from using them. `Stubbed` says that nothing refers to anything yet, which
is why other modules may come and go while dependencies are resolved. The lemmas say how each kind
of step carries the invariants on.
-/

namespace VaultKernel

open Arena Classes

/-- A module may be given a further class. -/
theorem Module.ownClasses_addOwn (m : Module) (ref : ClassRef) :
    (m.addOwn ref).ownClasses = m.ownClasses ++ [ref] := by
  simp [Module.ownClasses, Module.addOwn]

/-- The same module at a later stage of its load that has left its dependencies alone. -/
structure Module.Evolves (m m' : Module) : Prop where
  id : m'.id = m.id
  name : m'.name = m.name
  dependencies : m'.dependencies = m.dependencies

theorem Module.Evolves.refl (m : Module) : m.Evolves m := ⟨rfl, rfl, rfl⟩

/-- What becomes of a module in two steps becomes of it. -/
theorem Module.Evolves.trans {m₁ m₂ m₃ : Module} (h₁₂ : m₁.Evolves m₂) (h₂₃ : m₂.Evolves m₃) :
    m₁.Evolves m₃ :=
  ⟨h₂₃.id.trans h₁₂.id, h₂₃.name.trans h₁₂.name, h₂₃.dependencies.trans h₁₂.dependencies⟩

/-- A mention changes only the class table, and no own class in it. -/
theorem Module.mention_frame (m : Module) (ref : ClassRef) :
    m.Evolves (m.mention ref) ∧ (m.mention ref).ownClasses = m.ownClasses ∧
      (m.mention ref).refs = m.refs := by
  unfold Module.mention
  split
  · exact ⟨.refl m, rfl, rfl⟩
  · exact ⟨⟨rfl, rfl, rfl⟩, by simp [Module.ownClasses], rfl⟩

namespace Vault

/-- A class that a module may refer to: an own one, or a laid out one that is predefined or belongs
to a direct dependency. -/
def Visible (v : Vault) (m : Module) (r : ClassRef) : Prop :=
  v.classes.ownerOf? r = some m.id.toNat ∨
    ∃ owner c, v.classes.entry? r = some (owner, c) ∧ c.layout.isSome ∧
      (CoreType.isPredefined r ∨ ∃ d ∈ m.dependencies, owner = d.module.toNat)

/-- The invariant of a load; `linked` are the classes whose native methods are bound. -/
structure Loading (R : Vault → Prop) (m : Module) (linked : List ClassRef) (v : Vault) : Prop where
  undisturbed : ∀ v v', R v → Private m.id v v' → R v'
  around : R v
  sound : v.Sound
  number : CoreType.owner.toNat < m.id.toNat ∧ m.id.toNat ≤ v.tokens.lastModule.toNat
  alone : ∀ m' ∈ v.modules.toList, m'.id ≠ m.id
  owned_iff : ∀ r, r ∈ m.ownClasses ↔ v.classes.ownerOf? r = some m.id.toNat
  formed : ∀ r c, r ∈ m.ownClasses → v.class? r = some c →
    c.Formed (v.Visible m) (decide (r ∈ linked))
  /-- What aliases and generic parameters refer to. -/
  referred : ∀ r ∈ m.refs, v.Visible m r

/-- A load before its last stage. -/
structure Drafting (R : Vault → Prop) (m : Module) (linked : List ClassRef) (v : Vault) : Prop
    extends Loading R m linked v where
  blank : ∀ r c, r ∈ m.ownClasses → v.class? r = some c → c.layout = none

/-- A load that has read names and dependencies only. -/
structure Stubbed (R : Vault → Prop) (m : Module) (v : Vault) : Prop
    extends Drafting R m [] v where
  bare : ∀ r c, r ∈ m.ownClasses → v.class? r = some c → c.Formed (fun _ => False) false
  unreferred : m.refs = []

/-- What is left when a load stops. -/
structure Stopped (R : Vault → Prop) (id : ModuleId) (v : Vault) : Prop where
  around : R v
  sound : v.Sound
  core_lt : CoreType.owner.toNat < id.toNat
  alone : ∀ m ∈ v.modules.toList, m.id ≠ id

variable {R : Vault → Prop} {v v' : Vault} {m m' : Module} {linked : List ClassRef}

/-- What is left when a load stops may be said to be less. -/
theorem Stopped.mono {R' : Vault → Prop} {id : ModuleId} (hs : Stopped R id v)
    (hR : ∀ v, R v → R' v) : Stopped R' id v :=
  ⟨hR v hs.around, hs.sound, hs.core_lt, hs.alone⟩

/-- A load may stop at any time. -/
theorem Loading.stopped (hl : Loading R m linked v) : Stopped R m.id v :=
  ⟨hl.around, hl.sound, hl.number.1, hl.alone⟩

/-- The own classes of a module are there, under its number. -/
theorem Loading.entry? (hl : Loading R m linked v) {r : ClassRef} (hr : r ∈ m.ownClasses) :
    ∃ c, v.classes.entry? r = some (m.id.toNat, c) :=
  ownerOf?_eq_some_iff.1 ((hl.owned_iff r).1 hr)

/-! ## Visibility -/

/-- Visible classes stay visible while every class stays, with its layout. -/
theorem Visible.mono {r : ClassRef} (hr : v.Visible m r)
    (hkeep : ∀ owner c, v.classes.entry? r = some (owner, c) →
      ∃ c', v'.classes.entry? r = some (owner, c') ∧ (c.layout.isSome → c'.layout.isSome))
    (hid : m'.id = m.id) (hdependencies : m.dependencies ⊆ m'.dependencies) : v'.Visible m' r := by
  rcases hr with howner | ⟨owner, c, he, hlayout, hfrom⟩
  · obtain ⟨c, he⟩ := ownerOf?_eq_some_iff.1 howner
    obtain ⟨c', he', _⟩ := hkeep _ c he
    exact Or.inl (ownerOf?_eq_some_iff.2 ⟨c', hid ▸ he'⟩)
  · obtain ⟨c', he', hlayout'⟩ := hkeep owner c he
    refine Or.inr ⟨owner, c', he', hlayout' hlayout, hfrom.imp_right ?_⟩
    rintro ⟨d, hd, howner⟩
    exact ⟨d, hdependencies hd, howner⟩

/-- A class stays visible when classes are rewritten, as long as none loses its layout. -/
theorem Visible.changeClass {r ref : ClassRef} {f : Class → Class} (hr : v.Visible m r)
    (hf : ∀ c, v.class? ref = some c → c.layout.isSome → (f c).layout.isSome) :
    ({ v with classes := v.classes.modify ref f } : Vault).Visible m r :=
  hr.mono (fun _ _ he => entry?_modify_kept hf he) rfl (List.Subset.refl _)

/-- The predefined classes are visible to every module. -/
theorem Loading.predefined_visible (hl : Loading R m linked v) (t : CoreType) :
    v.Visible m t.ref := by
  obtain ⟨c, hc, hlayout⟩ := hl.sound.predefined t
  refine Or.inr ⟨_, c, hc, hlayout, Or.inl ?_⟩
  exact List.any_eq_true.2 ⟨t, t.mem_all, by simp⟩

/-- Every class in the table of visible classes is visible. -/
theorem Loading.visibleClasses (hl : Loading R m linked v) :
    ∀ e ∈ (v.visibleClasses m).entries, v.Visible m e.2 := by
  intro e he
  unfold Vault.visibleClasses at he
  rw [Table.mem_ofList, List.mem_append] at he
  rcases he with he | he
  · obtain ⟨t, _, rfl⟩ := List.mem_map.1 he
    exact hl.predefined_visible t
  · obtain ⟨owner, howner, he⟩ := List.mem_flatMap.1 he
    obtain ⟨r, hr, hentry⟩ := List.mem_filterMap.1 he
    obtain ⟨c, hc, rfl⟩ := Option.map_eq_some_iff.1 hentry
    rcases List.mem_append.1 howner with hdependency | hself
    · obtain ⟨d, hd, hfound⟩ := List.mem_filterMap.1 hdependency
      have hmem : owner ∈ v.modules.toList :=
        Array.mem_toList_iff.2 (Array.mem_of_find?_eq_some hfound)
      have hid : owner.id = d.module := by simpa using Array.find?_some hfound
      obtain ⟨c', he'⟩ := ownerOf?_eq_some_iff.1 ((hl.sound.owned_iff owner hmem r).1 hr)
      have hlayout := hl.sound.laidOut owner hmem r _ c' hr he'
      exact Or.inr ⟨_, c', he', hlayout, Or.inr ⟨d, hd, by rw [hid]⟩⟩
    · rw [List.mem_singleton.1 hself] at hr
      exact Or.inl ((hl.owned_iff r).1 hr)

/-- What the tables of a module lead to is visible. -/
theorem Loading.symbols_within (hl : Loading R m linked v) {generics : Table Int32 GenericParam}
    (hgenerics : ∀ e ∈ generics.entries, ∀ r ∈ e.2.refs, v.Visible m r) :
    ({ m.symbols (v.visibleClasses m) CoreType.object.ref with generics } : Symbols).Within
      (v.Visible m) :=
  ⟨hl.visibleClasses, hgenerics, hl.predefined_visible .object⟩

/-! ## Steps of a load -/

/-- Changes of the module that keep its number and its own classes. -/
theorem Loading.withModule (hl : Loading R m linked v) (hid : m'.id = m.id)
    (hown : m'.ownClasses = m.ownClasses) (hdependencies : m.dependencies ⊆ m'.dependencies)
    (hrefs : ∀ r ∈ m'.refs, v.Visible m r) : Loading R m' linked v := by
  have hvisible : ∀ r, v.Visible m r → v.Visible m' r :=
    fun _ hr => hr.mono (fun _ c he => ⟨c, he, id⟩) hid hdependencies
  refine ⟨?_, hl.around, hl.sound, ?_, ?_, ?_, ?_, fun r hr => hvisible r (hrefs r hr)⟩
  · rw [hid]
    exact hl.undisturbed
  · rw [hid]
    exact hl.number
  · rw [hid]
    exact hl.alone
  · rw [hid, hown]
    exact hl.owned_iff
  · intro r c hr hc
    rw [hown] at hr
    exact (hl.formed r c hr hc).mono hvisible

/-- What a module reads besides its classes does not matter, if it refers to visible classes. -/
theorem Drafting.withModule (hd : Drafting R m linked v) (hid : m'.id = m.id)
    (hown : m'.ownClasses = m.ownClasses) (hdependencies : m.dependencies ⊆ m'.dependencies)
    (hrefs : ∀ r ∈ m'.refs, v.Visible m r) : Drafting R m' linked v :=
  ⟨hd.toLoading.withModule hid hown hdependencies hrefs, fun r c hr => hd.blank r c (hown ▸ hr)⟩

/-- Classes and modules stay as they are. -/
theorem Drafting.congr (hd : Drafting R m linked v) (hR : R v') (hclasses : v'.classes = v.classes)
    (hmodules : v'.modules = v.modules) (htokens : v'.tokens = v.tokens) :
    Drafting R m linked v' := by
  have hvisible : ∀ r, v.Visible m r → v'.Visible m r := fun r hr =>
    hr.mono (fun owner c he => ⟨c, by rw [hclasses, he], id⟩) rfl (List.Subset.refl _)
  refine ⟨⟨hd.undisturbed, hR, hd.sound.congr hclasses hmodules htokens, ?_, ?_, ?_, ?_,
    fun r hr => hvisible r (hd.referred r hr)⟩, ?_⟩
  · rw [htokens]
    exact hd.number
  · rw [hmodules]
    exact hd.alone
  · rw [hclasses]
    exact hd.owned_iff
  · intro r c hr hc
    rw [class?, hclasses] at hc
    exact (hd.formed r c hr hc).mono hvisible
  · intro r c hr hc
    rw [class?, hclasses] at hc
    exact hd.blank r c hr hc

/-- A module that has read names only may be given further dependencies. -/
theorem Stubbed.withModule (hs : Stubbed R m v) (hid : m'.id = m.id)
    (hown : m'.ownClasses = m.ownClasses) (hdependencies : m.dependencies ⊆ m'.dependencies)
    (hrefs : m'.refs = m.refs) : Stubbed R m' v := by
  refine ⟨hs.toDrafting.withModule hid hown hdependencies ?_, ?_, hrefs.trans hs.unreferred⟩
  · rw [hrefs]
    exact hs.referred
  · rw [hown]
    exact hs.bare

/-- Other modules come and go. -/
theorem Stubbed.keep (hs : Stubbed R m v) (hsound : v'.Sound) (hk : v.Keeps v') (hR : R v') :
    Stubbed R m v' := by
  have hle := hs.number.2
  have halone : ∀ m' ∈ v.modules.toList, m'.id.toNat ≠ m.id.toNat :=
    fun m' hm' heq => hs.alone m' hm' (UInt16.toNat_inj.1 heq)
  have howned : ∀ r, v'.classes.ownerOf? r = some m.id.toNat ↔
      v.classes.ownerOf? r = some m.id.toNat := by
    intro r
    rw [ownerOf?_eq_some_iff, ownerOf?_eq_some_iff]
    constructor
    · rintro ⟨c, he⟩
      rcases hk.later r _ c he with he | hlater
      · exact ⟨c, he⟩
      · omega
    · rintro ⟨c, he⟩
      exact ⟨c, hk.kept r _ c he hle halone⟩
  have hsame : ∀ r c, r ∈ m.ownClasses → v'.class? r = some c → v.class? r = some c := by
    intro r c hr hc
    obtain ⟨c', he'⟩ := hs.entry? hr
    obtain ⟨owner, he⟩ := get?_eq_some_iff.1 hc
    cases he.symm.trans (hk.kept r _ c' he' hle halone)
    exact get?_eq_some_iff.2 ⟨_, he'⟩
  -- stubs refer to nothing, so it does not matter which classes went away
  have hbare : ∀ r c, r ∈ m.ownClasses → v'.class? r = some c → c.Formed (fun _ => False) false :=
    fun r c hr hc => hs.bare r c hr (hsame r c hr hc)
  refine ⟨⟨⟨hs.undisturbed, hR, hsound, ⟨hs.number.1, Nat.le_trans hle hk.tokens⟩, ?_, ?_, ?_, ?_⟩,
    ?_⟩, hbare, hs.unreferred⟩
  · intro m' hm' heq
    rcases hk.modules m' hm' with hold | hlater
    · exact hs.alone m' hold heq
    · rw [heq] at hlater
      omega
  · intro r
    rw [hs.owned_iff, howned]
  · intro r c hr hc
    exact (hbare r c hr hc).mono fun _ hfalse => hfalse.elim
  · rw [hs.unreferred]
    simp
  · intro r c hr hc
    exact hs.blank r c hr (hsame r c hr hc)

/-- Something else is to be known about the vault. -/
theorem Stubbed.withRest (hs : Stubbed R m v) {R' : Vault → Prop} (hR : R' v)
    (hundisturbed : ∀ v v', R' v → Private m.id v v' → R' v') : Stubbed R' m v :=
  ⟨⟨⟨hundisturbed, hR, hs.sound, hs.number, hs.alone, hs.owned_iff, hs.formed, hs.referred⟩,
    hs.blank⟩, hs.bare, hs.unreferred⟩

/-- An own class is changed. -/
theorem Drafting.changeClass (hd : Drafting R m linked v) {ref : ClassRef} {f : Class → Class}
    {linked' : List ClassRef} (href : ref ∈ m.ownClasses)
    (hlinked : ∀ r ∈ m.ownClasses, r ≠ ref → (r ∈ linked' ↔ r ∈ linked))
    (hf : ∀ c, v.class? ref = some c → (f c).owner = c.owner ∧ (f c).token = c.token ∧
      (f c).layout = c.layout ∧ (f c).Formed (v.Visible m) (decide (ref ∈ linked'))) :
    Drafting R m linked' { v with classes := v.classes.modify ref f } := by
  have hblank : ∀ c, v.class? ref = some c → c.layout = none ∧ (f c).layout = none ∧
      (f c).owner = c.owner ∧ (f c).token = c.token := by
    intro c hc
    obtain ⟨howner, htoken, hlayout, _⟩ := hf c hc
    -- a class that is laid out could be on the chain of another one
    have hnone := hd.blank ref c href hc
    exact ⟨hnone, hlayout.trans hnone, howner, htoken⟩
  have hsound := hd.sound.changeClass hblank
  have hvisible : ∀ r, v.Visible m r →
      ({ v with classes := v.classes.modify ref f } : Vault).Visible m r := by
    intro r hr
    refine hr.changeClass fun c hc hlayout => ?_
    rw [(hf c hc).2.2.1]
    exact hlayout
  have hcases : ∀ r c, (v.classes.modify ref f).get? r = some c →
      r = ref ∧ (∃ c', v.class? ref = some c' ∧ c = f c') ∨ r ≠ ref ∧ v.class? r = some c := by
    intro r c hc
    obtain ⟨owner, he⟩ := get?_eq_some_iff.1 hc
    obtain ⟨c', he', ⟨rfl, rfl⟩ | ⟨hne, rfl⟩⟩ := entry?_of_modify he
    · exact Or.inl ⟨rfl, c', get?_eq_some_iff.2 ⟨owner, he'⟩, rfl⟩
    · exact Or.inr ⟨hne, get?_eq_some_iff.2 ⟨owner, he'⟩⟩
  have hprivate := Private.changeClass ((hd.owned_iff ref).1 href) hblank
  refine ⟨⟨hd.undisturbed, hd.undisturbed _ _ hd.around hprivate, hsound, hd.number, hd.alone, ?_,
    ?_, fun r hr => hvisible r (hd.referred r hr)⟩, ?_⟩
  · intro r
    show _ ↔ (v.classes.modify ref f).ownerOf? r = _
    rw [ownerOf?_modify, hd.owned_iff]
  · intro r c hr hc
    rcases hcases r c hc with ⟨rfl, c', hc', rfl⟩ | ⟨hne, hold⟩
    · exact (hf c' hc').2.2.2.mono hvisible
    · rw [decide_eq_decide.2 (hlinked r hr hne)]
      exact (hd.formed r c hr hold).mono hvisible
  · intro r c hr hc
    rcases hcases r c hc with ⟨rfl, c', hc', rfl⟩ | ⟨_, hold⟩
    · rw [(hf c' hc').2.2.1]
      exact hd.blank r c' href hc'
    · exact hd.blank r c hr hold

/-- After a definition there are the new class and the old ones. -/
theorem Loading.class?_define (hl : Loading R m linked v) {tokens : TokenCounter} {c : Class}
    {r : ClassRef} {d : Class} (hr : r ∈ (m.addOwn (v.classes.allocate m.id.toNat c).1).ownClasses)
    (hd : ({ v with tokens, classes := (v.classes.allocate m.id.toNat c).2 } : Vault).class? r =
      some d) : d = c ∨ r ∈ m.ownClasses ∧ v.class? r = some d := by
  have hall := allocate_spec hl.sound.arena hl.sound.hasRoom m.id.toNat c
  obtain ⟨owner, he⟩ := get?_eq_some_iff.1 hd
  rw [Module.ownClasses_addOwn, List.mem_append, List.mem_singleton] at hr
  rcases hr with hr | rfl
  · obtain ⟨d', he'⟩ := hl.entry? hr
    rw [hall.extends.entry? he'] at he
    cases he
    exact Or.inr ⟨hr, get?_eq_some_iff.2 ⟨_, he'⟩⟩
  · rw [hall.entry?_self] at he
    cases he
    exact Or.inl rfl

/-- A class without members is defined. -/
theorem Drafting.define (hd : Drafting R m linked v) {tokens : TokenCounter} {classId : UInt16}
    (hgrant : v.tokens.nextClass? = some (classId, tokens)) (c : Class) (howner : c.owner = m.id)
    (htoken : c.token = ⟨m.id, classId⟩) (hlayout : c.layout = none)
    (hformed : ∀ ok done, c.Formed ok done) :
    Drafting R (m.addOwn (v.classes.allocate m.id.toNat c).1) linked
      { v with tokens, classes := (v.classes.allocate m.id.toNat c).2 } := by
  have hall := allocate_spec hd.sound.arena hd.sound.hasRoom m.id.toNat c
  have hsound := hd.sound.define hgrant howner (by rw [htoken]) hlayout
    hd.number.1 hd.number.2 hd.alone
  have hmodule := (nextClass?_eq_some hgrant).1
  have hprivate := Private.define hd.sound.arena hd.sound.hasRoom
    (Nat.zero_lt_of_lt hd.number.1) hd.number.2 hgrant
    htoken howner hlayout
  have hvisible : ∀ r, v.Visible m r →
      ({ v with tokens, classes := (v.classes.allocate m.id.toNat c).2 } : Vault).Visible
        (m.addOwn (v.classes.allocate m.id.toNat c).1) r :=
    fun r hr => hr.mono (fun _ d he => ⟨d, hall.extends.entry? he, id⟩) rfl (List.Subset.refl _)
  refine ⟨⟨hd.undisturbed, hd.undisturbed _ _ hd.around hprivate, hsound, ?_, hd.alone, ?_, ?_,
    fun r hr => hvisible r (hd.referred r hr)⟩, ?_⟩
  · show _ ∧ _ ≤ tokens.lastModule.toNat
    rw [hmodule]
    exact hd.number
  · intro r
    rw [Module.ownClasses_addOwn, List.mem_append, List.mem_singleton, hd.owned_iff,
      ownerOf?_eq_some_iff, ownerOf?_eq_some_iff]
    constructor
    · rintro (⟨d, he⟩ | rfl)
      · exact ⟨d, hall.extends.entry? he⟩
      · exact ⟨c, hall.entry?_self⟩
    · rintro ⟨d, he⟩
      rcases hall.entry?_cases he with ⟨heq, _⟩ | hprior
      · exact Or.inr heq
      · exact Or.inl ⟨d, hprior⟩
  · intro r d hr hget
    rcases hd.class?_define hr hget with rfl | ⟨hr, hget⟩
    · exact hformed _ _
    · exact (hd.formed r d hr hget).mono hvisible
  · intro r d hr hget
    rcases hd.class?_define hr hget with rfl | ⟨hr, hget⟩
    · exact hlayout
    · exact hd.blank r d hr hget

/-- A stub is a class that refers to nothing. -/
theorem Stubbed.define (hs : Stubbed R m v) {tokens : TokenCounter} {classId : UInt16}
    (hgrant : v.tokens.nextClass? = some (classId, tokens)) (c : Class) (howner : c.owner = m.id)
    (htoken : c.token = ⟨m.id, classId⟩) (hlayout : c.layout = none)
    (hformed : ∀ ok done, c.Formed ok done) :
    Stubbed R (m.addOwn (v.classes.allocate m.id.toNat c).1)
      { v with tokens, classes := (v.classes.allocate m.id.toNat c).2 } := by
  refine ⟨hs.toDrafting.define hgrant c howner htoken hlayout hformed, fun r d hr hd => ?_,
    hs.unreferred⟩
  rcases hs.class?_define hr hd with rfl | ⟨hr, hd⟩
  · exact hformed _ _
  · exact hs.bare r d hr hd

end Vault

end VaultKernel
