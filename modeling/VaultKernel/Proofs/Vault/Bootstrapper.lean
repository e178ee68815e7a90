import Mathlib.Data.List.Find
import Mathlib.Data.Option.Basic
import VaultKernel.Proofs.Text.Split
import VaultKernel.Proofs.Vault.Layouts
import VaultKernel.Proofs.Vault.Nesting
import VaultKernel.Proofs.Vault.OwnNames

/-!
# The class that every module gets

Each load defines a class `<sys>/boot` for its module, after all classes that the image declares and
without a look at their names. So an image that declares a class with this name makes a module with
two classes of one name, of which the declared one is found by the name and gets the aspects that
are for the other. Apart from that the names of own classes are different. `Bootstrapped` says so,
and `Searcher.load_bootstraps` is the statement to read first: it holds after every load that
succeeds and as long as the classes are there.
-/

namespace VaultKernel

open Arena Classes Vault Text Relation

namespace TypeName

/-- What an aspect for the class of the runtime names as its target. -/
def bootQuery : String := Run.systemSpace ++ "/" ++ Run.bootstrapperName

variable {module space name : String}

/-- The full name of a type is spelled from its parts. -/
theorem toList_ofParts (module space name : String) :
    (ofParts module space name).full.toList =
      module.toList ++ '%' :: (space.toList ++ '/' :: name.toList) := by
  simp [ofParts]

/-- A short name has no slash. -/
theorem slash_not_mem_short (t : TypeName) : '/' ∉ t.short.toList := by
  unfold short
  cases hsplit : splitLast '/' t.withSpace.toList with
  | none => exact splitLast_eq_none_iff.1 hsplit
  | some parts =>
      rw [String.toList_ofList]
      exact not_mem_of_splitLast hsplit

/-- If the module has a percent sign in its name, then the names of its classes have one behind the
first one. -/
theorem withSpace_ofParts_of_mem (h : '%' ∈ module.toList) :
    '%' ∈ (ofParts module space name).withSpace.toList := by
  obtain ⟨front, back, heq, hfront⟩ := List.eq_append_cons_of_mem h
  rw [withSpace, toList_ofParts, heq, List.append_assoc, List.cons_append, splitFirst_append hfront,
    String.toList_ofList]
  simp

/-- The name with its space is what was put together, unless the module's name has a percent
sign. -/
theorem withSpace_ofParts_of_not_mem (h : '%' ∉ module.toList) :
    (ofParts module space name).withSpace = space ++ "/" ++ name := by
  rw [withSpace, toList_ofParts, splitFirst_append h]
  apply String.toList_injective
  simp

/-- The class of the runtime is named by its space and its own name alone. -/
theorem ofParts_eq_bootstrapper_iff :
    ofParts module space name = bootstrapper module ↔ space ++ "/" ++ name = bootQuery := by
  rw [TypeName.mk.injEq, ← String.toList_inj, ← String.toList_inj, bootstrapper, toList_ofParts,
    toList_ofParts]
  simp [bootQuery]

/-- The divider occurs once in the name of the class of the runtime. -/
theorem parts_eq_boot_iff : space ++ "/" ++ name = bootQuery ↔
    space = Run.systemSpace ∧ name = Run.bootstrapperName := by
  constructor
  · intro h
    have hlist : space.toList ++ '/' :: name.toList =
        Run.systemSpace.toList ++ '/' :: Run.bootstrapperName.toList := by
      simpa [bootQuery] using congrArg String.toList h
    have hname : '/' ∉ name.toList := by
      have hcount := congrArg (List.count '/') hlist
      rw [List.count_append, List.count_cons_self,
        show List.count '/' (_ ++ '/' :: _) = 1 by decide] at hcount
      rw [← List.count_eq_zero]
      omega
    have hcut := splitLast_append space.toList hname
    rw [hlist, splitLast_append _ (by decide)] at hcut
    obtain ⟨hspace, hshort⟩ := Prod.mk.inj (Option.some.inj hcut)
    exact ⟨String.toList_injective hspace.symm, String.toList_injective hshort.symm⟩
  · rintro ⟨rfl, rfl⟩
    rfl

/-- A class is called `<sys>/boot` within its module exactly if it has the name of the class of the
runtime, and then the name of the module has no percent sign. -/
theorem isNamed_boot_iff : (ofParts module space name).isNamed bootQuery ↔
    '%' ∉ module.toList ∧ ofParts module space name = bootstrapper module := by
  have hshort : (ofParts module space name).short ≠ bootQuery := fun h =>
    slash_not_mem_short (ofParts module space name) (by rw [h]; decide)
  have hfull : (ofParts module space name).full ≠ bootQuery := fun h => by
    have hmem : '%' ∈ (ofParts module space name).full.toList := by simp [toList_ofParts]
    rw [h] at hmem
    exact absurd hmem (by decide)
  rw [ofParts_eq_bootstrapper_iff]
  simp only [isNamed, hshort, hfull, decide_false, Bool.false_or, Bool.or_false, decide_eq_true_iff]
  by_cases hmem : '%' ∈ module.toList
  · refine ⟨fun h => ?_, fun h => absurd hmem h.1⟩
    have hspace : '%' ∈ (ofParts module space name).withSpace.toList :=
      withSpace_ofParts_of_mem hmem
    rw [h] at hspace
    exact absurd hspace (by decide)
  · rw [withSpace_ofParts_of_not_mem hmem]
    simp [hmem]

end TypeName

/-- The class of the runtime is none of the predefined ones. -/
theorem CoreType.find?_bootstrapper (module : String) :
    CoreType.find? (TypeName.bootstrapper module) = none := by
  rw [CoreType.find?, List.find?_eq_none]
  intro t _ h
  have hsuffix : "/boot".toList <:+ t.name.full.toList := by
    rw [of_decide_eq_true h, TypeName.bootstrapper, TypeName.toList_ofParts]
    exact ⟨module.toList ++ '%' :: Run.systemSpace.toList, by simp [Run.bootstrapperName]⟩
  cases t <;> exact absurd hsuffix (by decide)

/-! ## Names -/

/-- The image declares a class with the name of the one that every module gets. -/
def ModuleImage.DeclaresBootstrapper (image : ModuleImage) (module : String) : Prop :=
  ∃ e ∈ image.typeNames,
    e.assembly = module ∧ e.space = Run.systemSpace ∧ e.name = Run.bootstrapperName

/-- The name of the class of the runtime is declared exactly if the image declares it. -/
theorem bootstrapper_mem_declaredNames {image : ModuleImage} {module : String} :
    TypeName.bootstrapper module ∈ declaredNames module image.typeNames ↔
      image.DeclaresBootstrapper module := by
  rw [mem_declaredNames]
  constructor
  · rintro ⟨e, he, ⟨rfl, _⟩, hname⟩
    exact ⟨e, he, rfl,
      TypeName.parts_eq_boot_iff.1 (TypeName.ofParts_eq_bootstrapper_iff.1 hname)⟩
  · rintro ⟨e, he, rfl, hparts⟩
    have hname : e.typeName = TypeName.bootstrapper e.assembly :=
      TypeName.ofParts_eq_bootstrapper_iff.2 (TypeName.parts_eq_boot_iff.2 hparts)
    exact ⟨e, he, ⟨rfl, hname ▸ CoreType.find?_bootstrapper _⟩, hname⟩

section Keys

variable {α β : Type} [DecidableEq β] {f : α → β} {xs : List α} {x y : α} {b : β}

/-- If no two elements look the same, a search finds the one that looks as asked for. -/
theorem find?_eq_some_iff_of_nodup (hnodup : (xs.map f).Nodup) :
    xs.find? (fun a => f a = b) = some y ↔ f y = b ∧ y ∈ xs := by
  constructor
  · intro h
    exact ⟨by simpa using List.find?_some h, List.mem_of_find?_eq_some h⟩
  · rintro ⟨rfl, hy⟩
    cases hfound : xs.find? (fun a => f a = f y) with
    | none => exact absurd (List.find?_eq_none.1 hfound y hy) (by simp)
    | some z =>
        have hz : f z = f y := by simpa using List.find?_some hfound
        rw [List.inj_on_of_nodup_map hnodup (List.mem_of_find?_eq_some hfound) hy hz]

/-- An element behind others with different keys is found by its key unless one of them has it. -/
theorem find?_concat_eq_some_iff (hnodup : (xs.map f).Nodup) :
    (xs ++ [x]).find? (fun a => f a = b) = some y ↔
      f y = b ∧ (y ∈ xs ∨ y = x ∧ b ∉ xs.map f) := by
  have hnone : xs.find? (fun a => f a = b) = none ↔ b ∉ xs.map f := by simp
  have hlast : [x].find? (fun a => f a = b) = some y ↔ f y = b ∧ y = x := by
    by_cases hx : f x = b <;> grind
  rw [List.find?_append, Option.or_eq_some_iff, find?_eq_some_iff_of_nodup hnodup, hnone, hlast]
  tauto

end Keys

/-! ## Loaded modules -/

/-- What holds of the class that every module gets, beside those that its image declares. The image
may declare one with the same name, and then that one is found by the name and gets the aspects. -/
structure Vault.Bootstrapped (v : Vault) (m : Module) (image : ModuleImage) : Prop where
  booted : ∃ others boot, m.Booted others boot
  /-- The names of the own classes, in order. -/
  names : (m.ownClasses.map fun r => (v.class? r).map (·.name)) =
    (declaredNames m.name image.typeNames ++ [TypeName.bootstrapper m.name]).map some
  distinct_iff : (m.ownClasses.map fun r => (v.class? r).map (·.name)).Nodup ↔
    ¬ image.DeclaresBootstrapper m.name
  /-- Every own class is found by its name, but for the last one. -/
  found_iff : ∀ r ∈ m.ownClasses, ∀ c, v.class? r = some c →
    (v.ownClass? m c.name = some r ↔
      ¬ (m.bootstrapper = some r ∧ image.DeclaresBootstrapper m.name))
  /-- An aspect for the class gets there unless the name of the module has a percent sign. -/
  reached_iff : ∀ a ∈ Aspect.ofConstants (.ofEntries image.constants),
    a.target = .class "<sys>/boot" → ∀ r ∈ m.ownClasses, ∀ c, v.class? r = some c →
    (a ∈ c.aspects ↔ '%' ∉ m.name.toList ∧ c.name = TypeName.bootstrapper m.name ∧
      ¬ (m.bootstrapper = some r ∧ image.DeclaresBootstrapper m.name))

namespace Vault

variable {v w : Vault} {m : Module} {image : ModuleImage} {declared : List TypeName}
  {aspects : List Aspect} {others : List ClassRef} {boot r : ClassRef}

/-- The title of a class has its name. -/
theorem title?_name (v : Vault) (r : ClassRef) :
    (v.title? r).map (·.1) = (v.class? r).map (·.name) := by
  unfold title?
  cases v.class? r <;> rfl

/-- The declared names are those of the other classes. -/
theorem Furnished.named (h : v.Furnished m m.name declared aspects) (hb : m.Booted others boot) :
    others.map (fun r => (v.title? r).map (·.1)) = declared.map some ∧
      (v.title? boot).map (·.1) = some (TypeName.bootstrapper m.name) := by
  have hnames := h.names
  rw [hb.own, List.map_append, List.map_append] at hnames
  obtain ⟨hothers, hboot⟩ := List.append_inj' hnames rfl
  exact ⟨hothers, List.head_eq_of_cons_eq hboot⟩

/-- An own class is found by its name, unless another one before it has the same. -/
theorem Furnished.ownClass?_eq_some_iff (h : v.Furnished m m.name declared aspects)
    (hnodup : declared.Nodup) (hr : r ∈ m.ownClasses) (n : TypeName) :
    v.ownClass? m n = some r ↔ (v.title? r).map (·.1) = some n ∧
      ¬ (m.bootstrapper = some r ∧ TypeName.bootstrapper m.name ∈ declared) := by
  obtain ⟨others, boot, hb⟩ := h.booted
  obtain ⟨hothers, hboot⟩ := h.named hb
  have hdistinct : (others.map fun r => (v.title? r).map (·.1)).Nodup := by
    rw [hothers]
    exact hnodup.map (Option.some_injective _)
  rw [v.ownClass?_eq, hb.own, find?_concat_eq_some_iff hdistinct, hothers, hb.bootstrapper]
  rw [hb.own, List.mem_append, List.mem_singleton] at hr
  refine and_congr_right fun hname => ?_
  by_cases hmem : r ∈ others
  · have hne : boot ≠ r := fun heq => hb.fresh (heq ▸ hmem)
    simp [hmem, hne]
  · obtain rfl := hr.resolve_left hmem
    obtain rfl : TypeName.bootstrapper m.name = n := Option.some.inj (hboot.symm.trans hname)
    simp [hmem]

/-- The names of own classes begin with the name of the module. -/
theorem Furnished.name_spelled
    (h : v.Furnished m m.name (declaredNames m.name image.typeNames) aspects) {n : TypeName}
    (hr : r ∈ m.ownClasses) (hn : (v.title? r).map (·.1) = some n) :
    ∃ space name, n = TypeName.ofParts m.name space name := by
  have hmem : (v.title? r).map (·.1) ∈ m.ownClasses.map fun r => (v.title? r).map (·.1) :=
    List.mem_map_of_mem hr
  rw [h.names, hn, List.mem_map_of_injective (Option.some_injective _), List.mem_append,
    List.mem_singleton] at hmem
  rcases hmem with hmem | rfl
  · obtain ⟨e, _, ⟨hassembly, _⟩, rfl⟩ := mem_declaredNames.1 hmem
    exact ⟨e.space, e.name, by rw [← hassembly]; rfl⟩
  · exact ⟨_, _, rfl⟩

/-- Aspects find the class of the runtime exactly if its name does, and no percent sign is in
the way. -/
theorem Furnished.ownNamed?_boot
    (h : v.Furnished m m.name (declaredNames m.name image.typeNames) aspects) :
    m.ownNamed? v.classes TypeName.bootQuery = some r ↔
      '%' ∉ m.name.toList ∧ v.ownClass? m (TypeName.bootstrapper m.name) = some r := by
  have hfits : ∀ q ∈ m.ownClasses, (v.title? q).any (·.1.isNamed TypeName.bootQuery) =
      decide ('%' ∉ m.name.toList ∧
        (v.title? q).map (·.1) = some (TypeName.bootstrapper m.name)) := by
    intro q hq
    cases htitle : v.title? q with
    | none => simp
    | some title =>
        obtain ⟨space, name, hname⟩ := h.name_spelled hq (by rw [htitle]; rfl)
        replace hname : title.1 = TypeName.ofParts m.name space name := hname
        rw [Option.any_some, hname, Bool.eq_iff_iff, TypeName.isNamed_boot_iff, decide_eq_true_iff,
          Option.map_some, hname, Option.some.injEq]
  rw [v.ownNamed?_eq, List.find?_congr hfits, v.ownClass?_eq]
  by_cases hmem : '%' ∈ m.name.toList
  · have hnone : m.ownClasses.find? (fun _ => false) = none := List.find?_eq_none.2 (by simp)
    simp [hmem, hnone]
  · simp [hmem]

/-- A furnished module has the class of the runtime as it should be. -/
theorem Furnished.bootstrapped (h : v.Furnished m m.name (declaredNames m.name image.typeNames)
    (Aspect.ofConstants (.ofEntries image.constants))) : v.Bootstrapped m image := by
  have hnodup := nodup_declaredNames m.name image.typeNames
  have hfound : ∀ r ∈ m.ownClasses, ∀ c, v.class? r = some c → ∀ n,
      v.ownClass? m n = some r ↔ c.name = n ∧
        ¬ (m.bootstrapper = some r ∧ image.DeclaresBootstrapper m.name) := by
    intro r hr c hc n
    rw [h.ownClass?_eq_some_iff hnodup hr, title?_name, hc, bootstrapper_mem_declaredNames]
    simp
  have hnames := h.names
  simp only [title?_name] at hnames
  refine ⟨h.booted, hnames, ?_, fun r hr c hc => by simp [hfound r hr c hc], ?_⟩
  · rw [hnames, List.nodup_map_iff (Option.some_injective _), List.nodup_append',
      List.disjoint_singleton, bootstrapper_mem_declaredNames]
    simp [hnodup]
  · intro a ha htarget r hr c hc
    have hreached := h.reached a ha TypeName.bootQuery htarget r hr
    rw [h.ownNamed?_boot, hfound r hr c hc] at hreached
    rw [← hreached, Classes.aspectsOf, show v.classes.get? r = some c from hc]
    rfl

/-! ## Later -/

/-- The own classes of a loaded module stay as they are as long as they are there. -/
theorem Chronicle.class?_eq {past : List Vault} (h : Chronicle (w :: past)) (hv : v ∈ w :: past)
    (hs : v.Sound) (hm : m ∈ v.modules.toList) (hheld : w.Holds m) (hr : r ∈ m.ownClasses) :
    w.class? r = v.class? r := by
  obtain ⟨c, he⟩ := ownerOf?_eq_some_iff.1 ((hs.owned_iff m hm r).1 hr)
  have hc : v.class? r = some c := get?_eq_some_iff.2 ⟨_, he⟩
  obtain ⟨d, hd⟩ := hheld r hr
  rw [hc, hd, h.fixed hv hc (hs.laidOut m hm r _ c hr he) hd]

/-- A module stays furnished as long as its own classes stay as they are. -/
theorem Furnished.later {name : String} (h : v.Furnished m name declared aspects)
    (hsame : ∀ r ∈ m.ownClasses, w.class? r = v.class? r) :
    w.Furnished m name declared aspects :=
  ⟨h.toOutfitted.same fun r hr => by rw [title?, title?, hsame r hr], h.name, h.booted⟩

end Vault

/-! ## Loads -/

namespace LoadCall

variable {s : Searcher} {c c' : LoadCall} {id : ModuleId} {v' : Vault}

/-- A nested load begins after a row of changes. -/
theorem Nests.steps (h : Nests s c c') (hs : c.vault.Sound) : c.vault.Steps c'.vault := by
  cases h with
  | @intro depth bytes bytes' v w u image m m' e version hb hrequest hfinds =>
      have hstaged : ∀ u u', v.Steps u → Private m.id u u' → v.Steps u' :=
        fun _ _ hu hprivate => hu.tail (.staged hprivate)
      have hstubbed := hb.stubbed hs (Steps.admits.begins hb) hstaged
      refine (hrequest.reached (R := fun _ => v.Steps) (fun _ => hstaged) hstubbed
        fun e version m' u _ hsound hu => ?_).2
      have hafter := (reaches_resolveWithin s (depth + 1) e.name version u).steps hsound
      exact ((resolveWithin_safe s _ e.name version u hsound).and (ends_iff.2 hafter)).mono
        (fun _ _ h => ⟨h.1.sound, h.1.keeps, hu.trans h.2⟩)
        fun _ h => ⟨h.1.sound, h.1.keeps, hu.trans h.2⟩

/-- Loads that are nested deeper begin after a row of changes, too. -/
theorem steps_of_nests (h : ReflTransGen (Nests s) c c') (hs : c.vault.Sound) :
    c.vault.Steps c'.vault := by
  induction h with
  | refl => exact ReflTransGen.refl
  | tail hnests hstep ih => exact ih.trans (hstep.steps (keeps_of_nests hnests hs).1)

/-- A load is a row of changes. -/
theorem steps_run (s : Searcher) (hs : c.vault.Sound) : c.vault.Steps (stateAfter (c.run s)) :=
  Steps.admits.loadImage (resolveWithin_safe s c.depth)
    (fun name version u hu => (reaches_resolveWithin s c.depth name version u).steps hu) hs c.bytes

/-- A load that succeeds gives the module its own classes. -/
theorem furnished_of_run (hs : c.vault.Sound) (hrun : c.run s = .ok id v') :
    ∃ image m, ModuleImage.decode c.bytes = .ok image ∧ image.name? = some m.name ∧
      v'.module? id = some m ∧ m ∈ v'.modules.toList ∧ v'.Sound ∧
      v'.Furnished m m.name (declaredNames m.name image.typeNames)
        (Aspect.ofConstants (.ofEntries image.constants)) := by
  have hsafe := resolveWithin_safe s c.depth
  have houtline : Outline (s.resolveWithin c.depth) c.bytes c.vault (c.run s) :=
    loadImage_outline _ _ _
  rw [hrun] at houtline
  cases houtline with
  | @completed image m m' w u hb hread =>
      have hends := (readModule_safe hsafe hs hb).and (readModule_titled hsafe hs hb)
      rw [hread] at hends
      obtain ⟨⟨hfinished, hid, hname⟩, hfurnished⟩ := hends
      obtain ⟨hsound, hcompleted⟩ := hfinished.completed (u.loading.erase m'.name)
      rw [← hname] at hfurnished
      exact ⟨image, m', hb.decoded, by rw [hname]; exact hb.named, hcompleted.listed,
        hcompleted.mem, hsound, hfurnished.later fun _ _ => rfl⟩

end LoadCall

/-- Every load that succeeds, also one that another load makes, leaves a module whose last own class
is the one that every module gets. Whether it is told apart from the others depends on the image
alone, then and for as long as the classes are there. -/
theorem Searcher.load_bootstraps (s : Searcher) {bytes : Wire.Bytes} {v v' : Vault} {c : LoadCall}
    {id : ModuleId} (hv : v.Reachable)
    (hcalls : ReflTransGen (LoadCall.Nests s) ⟨s.depth, bytes, v⟩ c) (hrun : c.run s = .ok id v') :
    ∃ image m, ModuleImage.decode c.bytes = .ok image ∧ image.name? = some m.name ∧
      v'.module? id = some m ∧ v'.Bootstrapped m image ∧
      ∀ w, v'.Steps w → w.Holds m → w.Bootstrapped m image := by
  have hs := (LoadCall.keeps_of_nests hcalls hv.sound).1
  obtain ⟨image, m, hdecoded, hname, hlisted, hmem, hs', hfurnished⟩ :=
    LoadCall.furnished_of_run hs hrun
  refine ⟨image, m, hdecoded, hname, hlisted, hfurnished.bootstrapped, fun w hsteps hheld => ?_⟩
  have hload := LoadCall.steps_run s hs
  rw [hrun] at hload
  obtain ⟨past, hchronicle⟩ := hv.chronicle
  obtain ⟨earlier, hchronicle', _⟩ :=
    hchronicle.extend ((LoadCall.steps_of_nests hcalls hv.sound).trans hload)
  obtain ⟨later, hchronicle'', hsuffix⟩ := hchronicle'.extend hsteps
  have hafter : v' ∈ w :: later := hsuffix.subset (by simp [stateAfter])
  have hlater := hfurnished.later fun r hr =>
    hchronicle''.class?_eq hafter hs' hmem hheld hr
  exact hlater.bootstrapped

/-- An aspect for the class that every module gets, and a class beside it. -/
theorem Searcher.load_bootstraps_small : ∃ (bytes : Wire.Bytes) (v v' : Vault) (image : ModuleImage)
    (m : Module), v.Reachable ∧ Searcher.load {} bytes v = .ok 2 v' ∧
      ModuleImage.decode bytes = .ok image ∧ v'.module? 2 = some m ∧ m.ownClasses.length = 2 ∧
      (Aspect.ofConstants (.ofEntries image.constants)).map (·.target) = [.class "<sys>/boot"] ∧
      v'.Bootstrapped m image := by
  obtain ⟨image, hrun⟩ : ∃ image : ModuleImage,
      (create {} {}).toOption.any fun v => image.encode.toOption.any fun bytes =>
        answerOf? (Searcher.load {} bytes v) = some 2 &&
        ((stateAfter (Searcher.load {} bytes v)).module? 2).any (·.ownClasses.length = 2) &&
        (ModuleImage.decode bytes).toOption.any fun image =>
          (Aspect.ofConstants (.ofEntries image.constants)).map (·.target) =
            [.class "<sys>/boot"] :=
    ⟨{ nameIndex := 0
       versionIndex := 1
       strings := [⟨0, "app"⟩, ⟨1, "1.0"⟩]
       typeNames := [⟨0, "app", "", "Shop"⟩, ⟨1, "std", "std", "Object"⟩]
       fieldNames := []
       dependencies := []
       classes := [⟨0, 0, [1], [], []⟩]
       aliases := []
       generics := []
       constants := [⟨"aspect/\\tag/\\class/\\<sys>/boot._0", .null⟩] }, by decide +kernel⟩
  obtain ⟨v, hcreated, hrun⟩ := (Option.any_eq_true _ _).1 hrun
  obtain ⟨bytes, _, hrun⟩ := (Option.any_eq_true _ _).1 hrun
  simp only [Bool.and_eq_true, decide_eq_true_iff, Option.any_eq_true] at hrun
  obtain ⟨⟨hanswer, m, hm, hcount⟩, image', hdecoded, htargets⟩ := hrun
  have hv : v.Reachable := ⟨{}, {}, v, toOption_eq_some.1 hcreated, .refl v⟩
  have hload := eq_ok_of_answerOf? hanswer
  obtain ⟨_, _, hdecoded', _, hm', hboot, _⟩ :=
    Searcher.load_bootstraps {} (c := ⟨Searcher.depth {}, bytes, v⟩) hv .refl hload
  cases hm.symm.trans hm'
  cases (toOption_eq_some.1 hdecoded).symm.trans hdecoded'
  exact ⟨bytes, v, _, image', m, hv, hload, hdecoded', hm', hcount, htargets, hboot⟩

/-- The image may declare a class with the name of the one that every module gets. Then both have
the name, and the declared one is found by it and gets the aspect. -/
theorem Searcher.load_bootstraps_twice : ∃ (bytes : Wire.Bytes) (v v' : Vault) (m : Module)
    (declared boot : Class), v.Reachable ∧ Searcher.load {} bytes v = .ok 2 v' ∧
      v'.module? 2 = some m ∧ m.ownClasses = [⟨23, 0⟩, ⟨24, 0⟩] ∧ m.bootstrapper = some ⟨24, 0⟩ ∧
      v'.class? ⟨23, 0⟩ = some declared ∧ v'.class? ⟨24, 0⟩ = some boot ∧
      boot.name = TypeName.bootstrapper m.name ∧ declared.name = boot.name ∧
      v'.ownClass? m boot.name = some ⟨23, 0⟩ ∧
      declared.aspects.map (·.target) = [.class "<sys>/boot"] ∧ boot.aspects = [] := by
  obtain ⟨image, hrun⟩ : ∃ image : ModuleImage,
      (create {} {}).toOption.any fun v => image.encode.toOption.any fun bytes =>
        answerOf? (Searcher.load {} bytes v) = some 2 &&
        ((stateAfter (Searcher.load {} bytes v)).module? 2).any fun m =>
        ((stateAfter (Searcher.load {} bytes v)).class? ⟨23, 0⟩).any fun declared =>
        ((stateAfter (Searcher.load {} bytes v)).class? ⟨24, 0⟩).any fun boot =>
          m.ownClasses = [⟨23, 0⟩, ⟨24, 0⟩] ∧ m.bootstrapper = some ⟨24, 0⟩ ∧
          boot.name = TypeName.bootstrapper m.name ∧ declared.name = boot.name ∧
          (stateAfter (Searcher.load {} bytes v)).ownClass? m boot.name = some ⟨23, 0⟩ ∧
          declared.aspects.map (·.target) = [.class "<sys>/boot"] ∧ boot.aspects = [] :=
    ⟨{ nameIndex := 0
       versionIndex := 1
       strings := [⟨0, "app"⟩, ⟨1, "1.0"⟩]
       typeNames := [⟨0, "app", "<sys>", "boot"⟩, ⟨1, "std", "std", "Object"⟩]
       fieldNames := []
       dependencies := []
       classes := [⟨0, 0, [1], [], []⟩]
       aliases := []
       generics := []
       constants := [⟨"aspect/\\tag/\\class/\\<sys>/boot._0", .null⟩] }, by decide +kernel⟩
  obtain ⟨v, hcreated, hrun⟩ := (Option.any_eq_true _ _).1 hrun
  obtain ⟨bytes, _, hrun⟩ := (Option.any_eq_true _ _).1 hrun
  simp only [Bool.and_eq_true, decide_eq_true_iff, Option.any_eq_true] at hrun
  obtain ⟨hanswer, m, hm, declared, hdeclared, boot, hboot, hown, hlast, hrest⟩ := hrun
  have hv : v.Reachable := ⟨{}, {}, v, toOption_eq_some.1 hcreated, .refl v⟩
  exact ⟨bytes, v, _, m, declared, boot, hv, eq_ok_of_answerOf? hanswer, hm, hown, hlast, hdeclared,
    hboot, hrest⟩

end VaultKernel
