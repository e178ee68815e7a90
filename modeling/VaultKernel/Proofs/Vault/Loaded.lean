import VaultKernel.Proofs.Vault.Reachable

/-!
# What a successful load establishes

`Loaded` collects what holds of a module once its load has succeeded: all of its classes are
complete and laid out, and nothing in them refers to a class that the module cannot see. The main
statement is `load_establishes`; it holds in every reachable vault.
-/

namespace VaultKernel.Vault

open Arena Classes Relation

/-- A living class that is predefined, an own one, or owned by a direct dependency. -/
structure Known (v : Vault) (m : Module) (r : ClassRef) : Prop where
  live : (v.class? r).isSome
  origin : CoreType.isPredefined r ∨ v.classes.ownerOf? r = some m.id.toNat ∨
    ∃ d ∈ m.dependencies, v.classes.ownerOf? r = some d.module.toNat

/-- A living class whose members and slots are in place. -/
def Usable (v : Vault) (r : ClassRef) : Prop :=
  ∃ c, v.class? r = some c ∧ c.isCompleted ∧ c.layout.isSome

/-- A class of a loaded module. -/
structure LoadedClass (v : Vault) (m : Module) (r : ClassRef) (c : Class) : Prop where
  completed : c.flags.notCompleted = false
  resolved : c.flags.unresolved = false
  token : c.token.isSet
  layout : c.layout.isSome
  parent : ∀ p, c.parent = some p → v.Usable p
  /-- No class from this one upwards is among its own ancestors. -/
  acyclic : ∀ a, ReflTransGen v.classes.Parent r a → ¬ TransGen v.classes.Parent a a
  refs : ∀ q ∈ c.refs, v.Known m q
  headers : ∀ x ∈ c.methods, x.header.isSome ↔ ¬ x.flags.has .native ∧ ¬ x.flags.has .abstract
  bindings : ∀ x ∈ c.methods, x.native.isSome ↔ x.flags.has .native

/-- A loaded module. -/
structure Loaded (v : Vault) (id : ModuleId) (m : Module) : Prop where
  listed : v.module? id = some m
  owned_iff : ∀ r, r ∈ m.ownClasses ↔ v.classes.ownerOf? r = some id.toNat
  classes : ∀ r ∈ m.ownClasses, ∃ c, v.class? r = some c ∧ v.LoadedClass m r c
  refs : ∀ r ∈ m.refs, v.Known m r

variable {v v' : Vault} {m : Module} {r : ClassRef}

/-- A visible class is known. -/
theorem Visible.known (hr : v.Visible m r) : v.Known m r := by
  rcases hr with howner | ⟨owner, c, he, _, hpredefined | ⟨d, hd, howner⟩⟩
  · obtain ⟨c, he⟩ := ownerOf?_eq_some_iff.1 howner
    exact ⟨Option.isSome_iff_exists.2 ⟨c, get?_eq_some_iff.2 ⟨_, he⟩⟩, Or.inr (Or.inl howner)⟩
  · exact ⟨Option.isSome_iff_exists.2 ⟨c, get?_eq_some_iff.2 ⟨_, he⟩⟩, Or.inl hpredefined⟩
  · refine ⟨Option.isSome_iff_exists.2 ⟨c, get?_eq_some_iff.2 ⟨_, he⟩⟩, Or.inr (Or.inr ⟨d, hd, ?_⟩)⟩
    exact ownerOf?_eq_some_iff.2 ⟨c, howner ▸ he⟩

/-- A laid out class is complete. -/
theorem Sound.usable (hs : v.Sound) {owner : Nat} {c : Class}
    (he : v.classes.entry? r = some (owner, c)) (hlayout : c.layout.isSome) : v.Usable r := by
  refine ⟨c, get?_eq_some_iff.2 ⟨owner, he⟩, ?_, hlayout⟩
  cases hs.rooted r owner c he hlayout with
  | gone _ hnone =>
      rw [hnone] at he
      cases he
  | laid he' _ hcompleted _ =>
      cases he.symm.trans he'
      exact hcompleted

/-- A visible class is usable. -/
theorem Visible.usable (hs : v.Sound) (hm : m ∈ v.modules.toList) (hr : v.Visible m r) :
    v.Usable r := by
  rcases hr with howner | ⟨owner, c, he, hlayout, _⟩
  · obtain ⟨c, he⟩ := ownerOf?_eq_some_iff.1 howner
    exact hs.usable he (hs.laidOut m hm r _ c ((hs.owned_iff m hm r).2 howner) he)
  · exact hs.usable he hlayout

/-- Each own class of a completed module is a loaded one. -/
theorem Completed.loadedClass (hs : v.Sound) (hm : v.Completed m) (hr : r ∈ m.ownClasses) :
    ∃ c, v.class? r = some c ∧ v.LoadedClass m r c := by
  obtain ⟨c, he⟩ := ownerOf?_eq_some_iff.1 ((hs.owned_iff m hm.mem r).1 hr)
  have hc : v.class? r = some c := get?_eq_some_iff.2 ⟨_, he⟩
  have hlayout := hs.laidOut m hm.mem r _ c hr he
  have hformed := hm.formed r c hr hc
  have hcompleted : c.flags.notCompleted = false := by
    obtain ⟨c', hc', hcompleted, _⟩ := hs.usable he hlayout
    cases hc.symm.trans hc'
    simpa [Class.isCompleted] using hcompleted
  refine ⟨c, hc, hcompleted, ?_, hs.token_isSet he, hlayout, ?_, ?_, ?_, ?_, ?_⟩
  · cases hunresolved : c.flags.unresolved with
    | false => rfl
    | true => exact absurd (hformed.resolved hunresolved) (by simp [hcompleted])
  · exact fun p hp => (hformed.parent p hp).usable hs hm.mem
  · exact fun a habove => (hs.rooted r _ c he hlayout).acyclic habove
  · exact fun q hq => (hformed.refs q hq).known
  · intro x hx
    rw [(hformed.methods x hx).2.1]
    simp
  · intro x hx
    rw [(hformed.methods x hx).2.2]
    simp

/-- A completed module is loaded with all that goes with it. -/
theorem Completed.loaded (hs : v.Sound) (hm : v.Completed m) : v.Loaded m.id m :=
  ⟨hm.listed, hs.owned_iff m hm.mem, fun _ hr => hm.loadedClass hs hr,
    fun r hr => (hm.referred r hr).known⟩

/-- A load that succeeds in a reachable vault leaves a module all of whose classes are complete,
laid out below usable parents, linked, and without a reference to a class that the module cannot
see. -/
theorem load_establishes (hv : v.Reachable) (s : Searcher) {bytes : Wire.Bytes} {id : ModuleId}
    (hload : s.load bytes v = .ok id v') : ∃ m, v'.Loaded id m := by
  have hspec := loadImage_spec (resolve_safe s) hv.sound bytes
  rw [show Run.loadImage s.resolve bytes v = _ from hload] at hspec
  obtain ⟨hsafe, m, rfl, hm⟩ := hspec
  exact ⟨m, hm.loaded hsafe.sound⟩

/-- Two classes, of which one extends the other and has an abstract method, and an alias. -/
theorem load_establishes_small : ∃ (image : ModuleImage) (bytes : Wire.Bytes) (v v' : Vault)
    (m : Module), image.encode = .ok bytes ∧ v.Reachable ∧ Searcher.load {} bytes v = .ok 2 v' ∧
      v'.Loaded 2 m ∧ m.ownClasses.length = 3 := by
  obtain ⟨image, hrun⟩ : ∃ image : ModuleImage,
      (create {} {}).toOption.any (fun v => image.encode.toOption.any fun bytes =>
        Ends (Searcher.load {} bytes v)
          (fun id v' => id = 2 ∧ (v'.module? 2).any (·.ownClasses.length = 3)) fun _ => False) :=
    ⟨{ nameIndex := 0
       versionIndex := 1
       strings := [⟨0, "demo"⟩, ⟨1, "1.0"⟩, ⟨2, "run"⟩]
       typeNames := [⟨0, "demo", "", "A"⟩, ⟨1, "demo", "", "B"⟩, ⟨2, "std", "std", "Object"⟩]
       fieldNames := [⟨0, "next", "A"⟩]
       dependencies := []
       classes :=
         [⟨0, 2, [], [], [⟨0, .type 0, 2⟩]⟩,
          ⟨1, 2, [0], [[2, 0, 0, 0, 128, 0, 0, 0, 0, 0, 0, 0, 0, 2, 0, 0, 0, 0, 0, 0, 0]], []⟩]
       aliases := [⟨0, 1, .type 0⟩]
       generics := []
       constants := [] }, by decide +kernel⟩
  cases hcreated : create {} {} with
  | error _ =>
      rw [hcreated] at hrun
      cases hrun
  | ok v =>
      cases hencoded : image.encode with
      | error _ =>
          rw [hcreated, hencoded] at hrun
          cases hrun
      | ok bytes =>
          rw [hcreated, hencoded] at hrun
          have hends : Ends (Searcher.load {} bytes v) _ _ := of_decide_eq_true hrun
          cases hload : Searcher.load {} bytes v with
          | error _ _ =>
              rw [hload] at hends
              cases hends
          | ok id v' =>
              rw [hload] at hends
              obtain ⟨rfl, hcount⟩ := hends
              have hv : v.Reachable := ⟨{}, {}, v, hcreated, .refl v⟩
              obtain ⟨m, hm⟩ := load_establishes hv {} hload
              rw [hm.listed] at hcount
              exact ⟨image, bytes, v, v', m, hencoded, hv, hload, hm, by simpa using hcount⟩

end VaultKernel.Vault
