import VaultKernel.Class.Distribution
import VaultKernel.Proofs.Arena.Slots
import VaultKernel.Proofs.Aspect.Rebuilding
import VaultKernel.Proofs.Outcome

/-!
# Where aspects go

An aspect of a module is for a class, a method or a field of the module (`Module.IsFor`), or it
fits nothing and stays with the module. Distribution takes every aspect to its place
(`Module.placeOf`): none is lost, and as the aspects that a table spells are all different
(`Aspect.nodup_ofConstants`) none is mistaken for one that is there already. `Module.Spread` says so
of any number of aspects, and `Module.Distributed` of all those of a module; the main statement is
`distribute_places`.
-/

namespace VaultKernel

/-! ## Different aspects -/

namespace Aspect

open Text

/-- A text that is read as a target is the text of that target. -/
theorem eq_of_target? {text : List Char} {target : AspectTarget} (h : target? text = some target) :
    text = targetText target := by
  unfold target? at h
  split at h
  · next hsplit =>
      cases h
      rw [targetText, String.toList_ofList, String.toList_ofList]
      exact eq_of_splitAt hsplit
  · split at h
    · next hsplit =>
        cases h
        rw [targetText, String.toList_ofList, String.toList_ofList]
        exact eq_of_splitAt hsplit
    · split at h
      · cases h
      · cases h
        rw [targetText, String.toList_ofList]

/-- A key is spelled by what is read from it. -/
theorem eq_of_readGroup? {text name : String} {target : AspectTarget}
    (h : readGroup? text = some (name, target)) : text = groupKey name target := by
  simp only [readGroup?, Option.bind_eq_bind, Option.bind_eq_some_iff] at h
  obtain ⟨rest, hopening, ⟨nameText, back⟩, hsplit, read, hread, h⟩ := h
  split at h
  · cases h
  · cases h
    apply String.toList_injective
    rw [toList_groupKey, String.toList_ofList, ← eq_of_target? hread, ← eq_of_splitAt hsplit]
    exact after?_eq_some_iff.1 hopening

/-- An aspect is spelled by the group that it was made of. -/
theorem groupKey_of_ofGroup? {group : String × List AspectArgument} {a : Aspect}
    (h : ofGroup? group = some a) : groupKey a.name a.target = group.1 := by
  simp only [ofGroup?, Option.bind_eq_bind, Option.bind_eq_some_iff] at h
  obtain ⟨⟨name, target⟩, hread, h⟩ := h
  cases h
  exact (eq_of_readGroup? hread).symm

/-- No two groups of constants have the same key. -/
theorem nodup_groupKeys (constants : ConstantTable) : ((groups constants).map (·.1)).Nodup := by
  rw [groups, foldl_addToGroup, List.map_map]
  have hkeys : ∀ keys : List String, ∀ f : String → List AspectArgument,
      keys.map ((·.1) ∘ fun k => (k, f k)) = keys := fun keys f => by simp [Function.comp_def]
  rw [hkeys]
  exact nodup_eraseDups _

/-- No two aspects of a table have both their name and their target in common. -/
theorem nodup_ofConstants (constants : ConstantTable) :
    ((ofConstants constants).map fun a => (a.name, a.target)).Nodup := by
  have hgroups := nodup_groupKeys constants
  rw [List.Nodup, List.pairwise_map] at hgroups ⊢
  refine List.Pairwise.filterMap _ (fun g g' hne a ha a' ha' heq => hne ?_) hgroups
  obtain ⟨hname, htarget⟩ := Prod.mk.inj heq
  rw [← groupKey_of_ofGroup? ha, ← groupKey_of_ofGroup? ha', hname, htarget]

end Aspect

/-! ## First elements of lists -/

section Lists

variable {α β : Type} {p : α → Bool} {P : α → Prop} {f : α → α} {xs : List α}

/-- The element at a place is the first one that satisfies `P`. -/
structure FirstSuch (P : α → Prop) (xs : List α) (i : Nat) : Prop where
  here : ∃ x, xs[i]? = some x ∧ P x
  earlier : ∀ j < i, ∀ y, xs[j]? = some y → ¬ P y

/-- A search by a test finds the first element of the kind that the test decides. -/
theorem findIdx?_eq_some_iff_firstSuch (hp : ∀ x, p x = true ↔ P x) {i : Nat} :
    xs.findIdx? p = some i ↔ FirstSuch P xs i := by
  rw [List.findIdx?_eq_some_iff_getElem]
  constructor
  · rintro ⟨hlt, hhere, hearlier⟩
    refine ⟨⟨xs[i], List.getElem?_eq_getElem hlt, (hp _).1 hhere⟩, fun j hj y hy hP => ?_⟩
    obtain ⟨hjlt, rfl⟩ := List.getElem?_eq_some_iff.1 hy
    exact hearlier j hj ((hp _).2 hP)
  · rintro ⟨⟨x, hx, hhere⟩, hearlier⟩
    obtain ⟨hlt, rfl⟩ := List.getElem?_eq_some_iff.1 hx
    refine ⟨hlt, (hp _).2 hhere, fun j hj hpj => ?_⟩
    have hjlt := hj.trans hlt
    exact hearlier j hj _ (List.getElem?_eq_getElem hjlt) ((hp _).1 hpj)

/-- What a search by a test answers is the first element of the kind that the test decides. -/
theorem find?_eq_some_iff_firstSuch (hp : ∀ x, p x = true ↔ P x) {x : α} :
    xs.find? p = some x ↔ ∃ i, xs[i]? = some x ∧ FirstSuch P xs i := by
  rw [List.find?_eq_bind_findIdx?_getElem?, Option.bind_eq_some_iff]
  refine exists_congr fun i => ?_
  rw [findIdx?_eq_some_iff_firstSuch hp, and_comm]

/-- The first change of a list is the one at the place that a search finds. -/
theorem changeFirst?_eq (p : α → Bool) (f : α → α) (xs : List α) :
    changeFirst? p f xs = (xs.findIdx? p).map fun i => xs.modify i f := by
  induction xs with
  | nil => rfl
  | cons x xs ih =>
      rw [changeFirst?, List.findIdx?_cons]
      by_cases hx : p x
      · simp [hx]
      · rw [if_neg hx, if_neg hx, ih, Option.map_map, Option.map_map]
        rfl

/-- A change that a map does not see may be forgotten under the map. -/
theorem map_modify_of_eq {g : α → β} (hg : ∀ x, g (f x) = g x) (i : Nat) :
    (xs.modify i f).map g = xs.map g := by
  apply List.ext_getElem?
  intro j
  rw [List.getElem?_map, List.getElem?_map, List.getElem?_modify]
  cases xs[j]? with
  | none => rfl
  | some x => by_cases hij : i = j <;> simp [hij, hg]

/-- The first element that fits gets one more entry, and the others none. -/
theorem changeFirst?_eq_some {g : α → List β} {b : α → α} {entry : β}
    (hg : ∀ x, g (f x) = g x ++ [entry]) (hb : ∀ x, b (f x) = b x) {i : Nat}
    (hi : xs.findIdx? p = some i) :
    ∃ ys, changeFirst? p f xs = some ys ∧ ys.map b = xs.map b ∧
      ∀ j : Nat, (ys[j]?.map g).getD [] =
        (xs[j]?.map g).getD [] ++ if i = j then [entry] else [] := by
  refine ⟨xs.modify i f, by rw [changeFirst?_eq, hi]; rfl, map_modify_of_eq hb i, fun j => ?_⟩
  rw [List.getElem?_modify]
  by_cases hij : i = j
  · subst j
    rw [List.getElem?_eq_getElem (List.findIdx?_eq_some_iff_getElem.1 hi).1]
    simp [hg]
  · simp [hij]

end Lists

/-! ## Parts of classes -/

/-- What can have aspects in a class. -/
inductive ClassPart where
  | whole
  | method (index : Nat)
  | field (index : Nat)
  deriving DecidableEq, Repr

/-- A method without aspects. -/
def Method.bare (m : Method) : Method := { m with aspects := [] }

/-- A field without aspects. -/
def Field.bare (f : Field) : Field := { f with aspects := [] }

namespace Class

variable {c : Class} {a : Aspect}

/-- The aspects of a part of a class. -/
def aspectsOf (c : Class) : ClassPart → List Aspect
  | .whole => c.aspects
  | .method index => (c.methods[index]?.map Method.aspects).getD []
  | .field index => (c.fields[index]?.map Field.aspects).getD []

/-- The part of a class that a target is for: the first method or field that fits. -/
def partFor? (c : Class) : AspectTarget → Option ClassPart
  | .class _ => some .whole
  | .method _ query => (c.methods.findIdx? (·.isCalled query)).map .method
  | .field _ query => (c.fields.findIdx? (·.name.name = query)).map .field

/-- The parts of a class that a target is for: the class itself, its first method with the name or
the signature, its first field with the short name. -/
inductive Offers (c : Class) : AspectTarget → ClassPart → Prop where
  | whole {className : String} : Offers c (.class className) .whole
  | method {className query : String} {i : Nat} :
      FirstSuch (fun m => m.name = query ∨ m.signature = query) c.methods i →
      Offers c (.method className query) (.method i)
  | field {className query : String} {i : Nat} :
      FirstSuch (fun f => f.name.name = query) c.fields i →
      Offers c (.field className query) (.field i)

/-- The part that a target is for is the one that the class offers. -/
theorem partFor?_eq_some_iff {target : AspectTarget} {part : ClassPart} :
    c.partFor? target = some part ↔ c.Offers target part := by
  cases target with
  | «class» className =>
      constructor
      · intro h
        cases h
        exact .whole
      · rintro ⟨⟩
        rfl
  | method className query =>
      have hfirst : ∀ i, c.methods.findIdx? (·.isCalled query) = some i ↔
          FirstSuch (fun m => m.name = query ∨ m.signature = query) c.methods i :=
        fun i => findIdx?_eq_some_iff_firstSuch fun m => by simp [Method.isCalled]
      rw [partFor?, Option.map_eq_some_iff]
      constructor
      · rintro ⟨i, hi, rfl⟩
        exact .method ((hfirst i).1 hi)
      · rintro ⟨⟩
        next i hi => exact ⟨i, (hfirst i).2 hi, rfl⟩
  | field className query =>
      have hfirst : ∀ i, c.fields.findIdx? (·.name.name = query) = some i ↔
          FirstSuch (fun f => f.name.name = query) c.fields i :=
        fun i => findIdx?_eq_some_iff_firstSuch fun f => by simp
      rw [partFor?, Option.map_eq_some_iff]
      constructor
      · rintro ⟨i, hi, rfl⟩
        exact .field ((hfirst i).1 hi)
      · rintro ⟨⟩
        next i hi => exact ⟨i, (hfirst i).2 hi, rfl⟩

/-- A class without aspects. -/
def bare (c : Class) : Class :=
  { c with
    aspects := []
    methods := c.methods.map Method.bare
    fields := c.fields.map Field.bare }

/-- Whether a class has aspects does not matter to where one goes. -/
theorem partFor?_bare (c : Class) (target : AspectTarget) :
    c.bare.partFor? target = c.partFor? target := by
  cases target with
  | «class» => rfl
  | method className query =>
      show ((c.methods.map Method.bare).findIdx? _).map _ = _
      rw [List.findIdx?_map]
      rfl
  | field className query =>
      show ((c.fields.map Field.bare).findIdx? _).map _ = _
      rw [List.findIdx?_map]
      rfl

/-- An aspect that fits nothing in a class changes nothing. -/
theorem attach?_eq_none (h : c.partFor? a.target = none) : c.attach? a = none := by
  unfold partFor? at h
  unfold attach?
  cases htarget : a.target with
  | «class» className =>
      rw [htarget] at h
      cases h
  | method className query =>
      rw [htarget] at h
      dsimp only at h ⊢
      rw [changeFirst?_eq, Option.map_eq_none_iff.1 h]
      rfl
  | field className query =>
      rw [htarget] at h
      dsimp only at h ⊢
      rw [changeFirst?_eq, Option.map_eq_none_iff.1 h]
      rfl

/-- An aspect that fits a part of a class is added to it. -/
theorem attach?_eq_some {part : ClassPart} (hpart : c.partFor? a.target = some part)
    (hfresh : part = .whole → a ∉ c.aspects) :
    ∃ changed, c.attach? a = some changed ∧ changed.bare = c.bare ∧
      ∀ q, changed.aspectsOf q = c.aspectsOf q ++ if part = q then [a] else [] := by
  unfold partFor? at hpart
  unfold attach?
  cases htarget : a.target with
  | «class» className =>
      rw [htarget] at hpart
      cases hpart
      refine ⟨_, rfl, ?_, ?_⟩
      · rw [if_neg (hfresh rfl)]
        rfl
      · intro q
        rw [if_neg (hfresh rfl)]
        cases q <;> simp [aspectsOf]
  | method className query =>
      rw [htarget] at hpart
      obtain ⟨i, hi, rfl⟩ := Option.map_eq_some_iff.1 hpart
      obtain ⟨methods, hchanged, hbare, hadded⟩ := changeFirst?_eq_some
        (f := fun m : Method => { m with aspects := m.aspects ++ [a] }) (g := Method.aspects)
        (b := Method.bare) (fun _ => rfl) (fun _ => rfl) hi
      refine ⟨{ c with methods }, Option.map_eq_some_iff.2 ⟨methods, hchanged, rfl⟩,
        by simp only [bare, hbare], fun q => ?_⟩
      cases q with
      | method j => simpa [aspectsOf] using hadded j
      | whole => simp [aspectsOf]
      | field j => simp [aspectsOf]
  | field className query =>
      rw [htarget] at hpart
      obtain ⟨i, hi, rfl⟩ := Option.map_eq_some_iff.1 hpart
      obtain ⟨fields, hchanged, hbare, hadded⟩ := changeFirst?_eq_some
        (f := fun f : Field => { f with aspects := f.aspects ++ [a] }) (g := Field.aspects)
        (b := Field.bare) (fun _ => rfl) (fun _ => rfl) hi
      refine ⟨{ c with fields }, Option.map_eq_some_iff.2 ⟨fields, hchanged, rfl⟩,
        by simp only [bare, hbare], fun q => ?_⟩
      cases q with
      | field j => simpa [aspectsOf] using hadded j
      | whole => simp [aspectsOf]
      | method j => simp [aspectsOf]

end Class

/-! ## Arenas seen through a function -/

namespace Arena

variable {α β : Type}

/-- An arena with the image of every value. -/
def map (f : α → β) (a : Arena α) : Arena β where
  slots := a.slots.map fun s =>
    { generation := s.generation, entry := s.entry.map fun (owner, value) => (owner, f value) }
  free := a.free
  owners := a.owners
  size := a.size

/-- An image of an arena has the images of its values behind the same handles. -/
theorem get?_map (f : α → β) (a : Arena α) (h : Handle) : (a.map f).get? h = (a.get? h).map f := by
  simp only [get?, entry?, map, Array.getElem?_map]
  cases a.slots[h.index]? with
  | none => rfl
  | some s =>
      by_cases hg : s.generation = h.generation
      · cases hentry : s.entry <;> simp [hg, hentry]
      · simp [hg]

/-- What a function does not see does not show in the images. -/
theorem map_modify {f : α → β} {g : α → α} {a : Arena α} {h : Handle}
    (hg : ∀ x, a.get? h = some x → f (g x) = f x) : (a.modify h g).map f = a.map f := by
  unfold modify
  split
  · next hcontains =>
      obtain ⟨⟨owner, value⟩, he⟩ := contains_iff.1 hcontains
      have hvalue := hg value (get?_eq_some_iff.2 ⟨owner, he⟩)
      have hat := (entry?_eq_some_iff.1 he).2
      simp only [map]
      congr 1
      apply Array.ext_getElem?
      intro i
      rw [Array.getElem?_map, Array.getElem?_map, Array.getElem?_modify]
      split
      · next hi =>
          subst i
          obtain ⟨s, hs, hentry⟩ := Option.bind_eq_some_iff.1 hat
          simp [hs, hentry, hvalue]
      · rfl
  · rfl

end Arena

/-! ## Places -/

/-- The aspects of a part of a class. -/
def Classes.aspectsOf (classes : Classes) (ref : ClassRef) (part : ClassPart) : List Aspect :=
  ((classes.get? ref).map (·.aspectsOf part)).getD []

/-- A class has the name, in one of its forms. -/
def Classes.Named (classes : Classes) (query : String) (ref : ClassRef) : Prop :=
  ∃ c, classes.get? ref = some c ∧
    (c.name.short = query ∨ c.name.withSpace = query ∨ c.name.full = query)

/-- The classes without their aspects. -/
def Classes.bare (classes : Classes) : Classes := classes.map Class.bare

namespace Module

open Arena

variable {m : Module} {classes classes' classes'' : Classes} {a : Aspect}

/-- The part of an own class that an aspect is for; there is none if it fits nothing and is to stay
with the module. -/
def placeOf (m : Module) (classes : Classes) (a : Aspect) : Option (ClassRef × ClassPart) := do
  let ref ← m.ownNamed? classes a.target.className
  let part ← (← classes.get? ref).partFor? a.target
  return (ref, part)

/-- The aspects at a place. -/
def aspectsAt (m : Module) (classes : Classes) : Option (ClassRef × ClassPart) → List Aspect
  | some (ref, part) => classes.aspectsOf ref part
  | none => m.aspects

/-- Whether classes have aspects does not matter to which one is named. -/
theorem ownNamed?_bare (m : Module) (classes : Classes) (query : String) :
    m.ownNamed? classes.bare query = m.ownNamed? classes query := by
  unfold ownNamed?
  congr 1
  funext ref
  rw [Classes.bare, get?_map]
  cases classes.get? ref <;> rfl

/-- Whether classes have aspects does not matter to where one goes in a module. -/
theorem placeOf_bare (m : Module) (classes : Classes) (a : Aspect) :
    m.placeOf classes.bare a = m.placeOf classes a := by
  unfold placeOf
  rw [ownNamed?_bare]
  cases m.ownNamed? classes a.target.className with
  | none => rfl
  | some ref =>
      simp only [Option.bind_eq_bind, Option.bind_some, Classes.bare, get?_map]
      cases classes.get? ref with
      | none => rfl
      | some c => simp only [Option.map_some, Option.bind_some, Class.partFor?_bare]

/-- Where an aspect belongs does not depend on the aspects that are there. -/
theorem placeOf_congr (h : classes'.bare = classes.bare) :
    m.placeOf classes' a = m.placeOf classes a := by
  rw [← placeOf_bare, h, placeOf_bare]

/-- An aspect is for a part of the first own class that has the name of its target. -/
structure IsFor (m : Module) (classes : Classes) (a : Aspect) (ref : ClassRef) (part : ClassPart) :
    Prop where
  first : ∃ i, m.ownClasses[i]? = some ref ∧
    FirstSuch (classes.Named a.target.className) m.ownClasses i
  offers : ∃ c, classes.get? ref = some c ∧ c.Offers a.target part

/-- An aspect goes to the part that it is for. -/
theorem placeOf_eq_some_iff {ref : ClassRef} {part : ClassPart} :
    m.placeOf classes a = some (ref, part) ↔ m.IsFor classes a ref part := by
  have hnamed : m.ownNamed? classes a.target.className = some ref ↔
      ∃ i, m.ownClasses[i]? = some ref ∧
        FirstSuch (classes.Named a.target.className) m.ownClasses i :=
    find?_eq_some_iff_firstSuch fun r => by
      cases hr : classes.get? r <;> simp [Classes.Named, TypeName.isNamed, hr, or_assoc]
  constructor
  · intro h
    simp only [placeOf, Option.bind_eq_bind, Option.bind_eq_some_iff] at h
    obtain ⟨_, href, c, hc, _, hpart, h⟩ := h
    cases h
    exact ⟨hnamed.1 href, c, hc, Class.partFor?_eq_some_iff.1 hpart⟩
  · rintro ⟨href, c, hc, hoffers⟩
    simp only [placeOf, hnamed.2 href, hc, Class.partFor?_eq_some_iff.2 hoffers,
      Option.bind_eq_bind, Option.bind_some]
    rfl

/-- An aspect goes to an own class only. -/
theorem IsFor.mem {ref : ClassRef} {part : ClassPart} (h : m.IsFor classes a ref part) :
    ref ∈ m.ownClasses := by
  obtain ⟨i, hi, _⟩ := h.first
  exact List.mem_of_getElem? hi

/-- The own classes are resolved. -/
def Resolved (m : Module) (classes : Classes) : Prop :=
  ∀ ref ∈ m.ownClasses, ∀ c, classes.get? ref = some c → c.flags.unresolved = false

/-- Whether the own classes are resolved does not depend on their aspects. -/
theorem Resolved.congr (hm : m.Resolved classes) (h : classes'.bare = classes.bare) :
    m.Resolved classes' := by
  intro ref href c' hc'
  have hmaps : (classes'.get? ref).map Class.bare = (classes.get? ref).map Class.bare := by
    rw [← get?_map, ← get?_map]
    exact congrArg (·.get? ref) h
  rw [hc'] at hmaps
  obtain ⟨c, hc, hbare⟩ := Option.map_eq_some_iff.1 hmaps.symm
  have hflags : c.bare.flags = c'.bare.flags := congrArg Class.flags hbare
  exact (congrArg ClassFlags.unresolved hflags).symm.trans (hm ref href c hc)

/-! ## Distribution -/

/-- What attaching aspects does to the classes, and which ones are left over. -/
structure Spread (m : Module) (classes : Classes) (aspects left : List Aspect)
    (classes' : Classes) : Prop where
  bare : classes'.bare = classes.bare
  others : ∀ ref ∉ m.ownClasses, classes'.get? ref = classes.get? ref
  left_eq : left = aspects.filter (m.placeOf classes · = none)
  /-- Each part of a class gets what is for it, in order. -/
  attached : ∀ ref part, classes'.aspectsOf ref part =
    classes.aspectsOf ref part ++ aspects.filter (m.placeOf classes · = some (ref, part))

/-- Aspects may be attached in two portions. -/
theorem Spread.append {aspects aspects' left left' : List Aspect}
    (h : m.Spread classes aspects left classes') (h' : m.Spread classes' aspects' left' classes'') :
    m.Spread classes (aspects ++ aspects') (left ++ left') classes'' where
  bare := h'.bare.trans h.bare
  others ref href := (h'.others ref href).trans (h.others ref href)
  left_eq := by
    rw [h.left_eq, h'.left_eq, List.filter_append]
    simp only [placeOf_congr h.bare]
  attached ref part := by
    rw [h'.attached, h.attached, List.filter_append, List.append_assoc]
    simp only [placeOf_congr h.bare]

/-- An aspect that has a place goes there and is not left over. -/
theorem Spread.of_changed {ref : ClassRef} {part : ClassPart} {c changed : Class}
    (hc : classes.get? ref = some c) (hplace : m.placeOf classes a = some (ref, part))
    (hbare : changed.bare = c.bare)
    (hadded : ∀ q, changed.aspectsOf q = c.aspectsOf q ++ if part = q then [a] else []) :
    m.Spread classes [a] [] (classes.modify ref fun _ => changed) where
  bare := Arena.map_modify fun x hx => by
    cases hc.symm.trans hx
    exact hbare
  others ref' href' := by
    rw [get?_modify, if_neg]
    rintro rfl
    exact href' (placeOf_eq_some_iff.1 hplace).mem
  left_eq := by simp [hplace]
  attached ref' part' := by
    rw [Classes.aspectsOf, get?_modify, Classes.aspectsOf]
    by_cases href : ref' = ref
    · subst ref'
      rw [if_pos rfl, hc]
      by_cases hpart : part = part' <;> simp [hadded, hplace, hpart]
    · simp [href, hplace, Ne.symm href]

/-- An aspect that has no place is left over. -/
theorem Spread.of_none (h : m.placeOf classes a = none) : m.Spread classes [a] [a] classes where
  bare := rfl
  others _ _ := rfl
  left_eq := by simp [h]
  attached ref part := by simp [h]

/-- An aspect goes to its place, if it is not there yet. -/
theorem attachOne_spread (hresolved : m.Resolved classes)
    (hfresh : ∀ ref, m.placeOf classes a = some (ref, .whole) →
      a ∉ classes.aspectsOf ref .whole) :
    ∃ rest classes', m.attachOne a classes = .ok rest classes' ∧
      m.Spread classes [a] rest.toList classes' := by
  unfold attachOne
  cases hnamed : m.ownNamed? classes a.target.className with
  | none =>
      have hplace : m.placeOf classes a = none := by rw [placeOf, hnamed]; rfl
      exact ⟨some a, classes, rfl, .of_none hplace⟩
  | some ref =>
      have hown : ref ∈ m.ownClasses := List.mem_of_find?_eq_some hnamed
      cases hc : classes.get? ref with
      | none =>
          have hplace : m.placeOf classes a = none := by
            simp only [placeOf, hnamed, Option.bind_eq_bind, Option.bind_some, hc, Option.bind_none]
          exact ⟨some a, classes, by simp only [hc], .of_none hplace⟩
      | some c =>
          simp only [hc, hresolved ref hown c hc, Bool.false_eq_true, if_false]
          have hplace : m.placeOf classes a = (c.partFor? a.target).map (ref, ·) := by
            simp only [placeOf, hnamed, Option.bind_eq_bind, Option.bind_some, hc]
            cases c.partFor? a.target <;> rfl
          cases hpart : c.partFor? a.target with
          | none =>
              rw [hpart] at hplace
              exact ⟨some a, classes, by rw [Class.attach?_eq_none hpart], .of_none hplace⟩
          | some part =>
              rw [hpart, Option.map_some] at hplace
              have hnew : part = .whole → a ∉ c.aspects := by
                rintro rfl
                have hwhole := hfresh ref hplace
                rwa [Classes.aspectsOf, hc] at hwhole
              obtain ⟨changed, hchanged, hbare, hadded⟩ := Class.attach?_eq_some hpart hnew
              rw [hchanged]
              exact ⟨none, _, rfl, .of_changed hc hplace hbare hadded⟩

/-- Aspects that differ from each other go to their places one after the other. -/
theorem attachAll_spread {aspects : List Aspect} (hnodup : aspects.Nodup)
    (hresolved : m.Resolved classes)
    (hfresh : ∀ a ∈ aspects, ∀ ref, m.placeOf classes a = some (ref, .whole) →
      a ∉ classes.aspectsOf ref .whole) :
    ∃ left classes', m.attachAll aspects classes = .ok left classes' ∧
      m.Spread classes aspects left classes' := by
  induction aspects generalizing classes with
  | nil => exact ⟨[], classes, rfl, rfl, fun _ _ => rfl, rfl, fun _ _ => by simp⟩
  | cons a aspects ih =>
      obtain ⟨hnot, hnodup⟩ := List.nodup_cons.1 hnodup
      obtain ⟨rest, classes₁, hfirst, hspread⟩ :=
        attachOne_spread hresolved (hfresh a (by simp))
      -- what was attached first is none of the others
      have hfresh₁ : ∀ b ∈ aspects, ∀ ref, m.placeOf classes₁ b = some (ref, .whole) →
          b ∉ classes₁.aspectsOf ref .whole := by
        intro b hb ref hplace hmem
        rw [placeOf_congr hspread.bare] at hplace
        rw [hspread.attached, List.mem_append] at hmem
        rcases hmem with hold | hnew
        · exact hfresh b (by simp [hb]) ref hplace hold
        · have heq : b = a := List.mem_singleton.1 (List.mem_filter.1 hnew).1
          exact hnot (heq ▸ hb)
      obtain ⟨left, classes₂, hothers, hspread'⟩ :=
        ih hnodup (hresolved.congr hspread.bare) hfresh₁
      refine ⟨rest.toList ++ left, classes₂, ?_, hspread.append hspread'⟩
      rw [attachAll]
      exact bind_of_eq_ok hfirst (bind_of_eq_ok hothers rfl)

/-- Every aspect of a module is at its place afterwards, and all the rest is as it was. -/
structure Distributed (m : Module) (classes : Classes) (m' : Module) (classes' : Classes) :
    Prop where
  place_iff : ∀ a ref part, m.placeOf classes a = some (ref, part) ↔ m.IsFor classes a ref part
  /-- A place has what was there before, and then what is for it, in order; the module has only what
  fits nothing. -/
  places : ∀ place, m'.aspectsAt classes' place =
    ({ m with aspects := [] } : Module).aspectsAt classes place ++
      m.aspects.filter (m.placeOf classes · = place)
  /-- An aspect comes to one place once, and to no other place. -/
  once : ∀ a ∈ m.aspects, ∀ place, (m'.aspectsAt classes' place).count a =
    (({ m with aspects := [] } : Module).aspectsAt classes place).count a +
      if m.placeOf classes a = place then 1 else 0
  module : m' = { m with aspects := m'.aspects }
  /-- The arena and the classes are the same without aspects. -/
  bare : classes'.bare = classes.bare
  others : ∀ ref ∉ m.ownClasses, classes'.get? ref = classes.get? ref

/-- The aspects that a table spells are distributed if the own classes of the module are resolved
and have no aspects of their own. -/
theorem distribute_places {constants : ConstantTable}
    (hpending : m.aspects = Aspect.ofConstants constants) (hresolved : m.Resolved classes)
    (hnone : ∀ ref ∈ m.ownClasses, ∀ c, classes.get? ref = some c → c.aspects = []) :
    ∃ m' classes', m.distribute classes = .ok m' classes' ∧
      m.Distributed classes m' classes' := by
  have hnodup : m.aspects.Nodup := by
    rw [hpending]
    exact (Aspect.nodup_ofConstants constants).of_map
  have hfresh : ∀ a ∈ m.aspects, ∀ ref, m.placeOf classes a = some (ref, .whole) →
      a ∉ classes.aspectsOf ref .whole := by
    intro a _ ref hplace
    have hfor := placeOf_eq_some_iff.1 hplace
    obtain ⟨c, hc, _⟩ := hfor.offers
    rw [Classes.aspectsOf, hc]
    simp [Class.aspectsOf, hnone ref hfor.mem c hc]
  obtain ⟨left, classes', hrun, hspread⟩ := attachAll_spread hnodup hresolved hfresh
  have hplaces : ∀ place, ({ m with aspects := left } : Module).aspectsAt classes' place =
      ({ m with aspects := [] } : Module).aspectsAt classes place ++
        m.aspects.filter (m.placeOf classes · = place) := by
    rintro (_ | ⟨ref, part⟩)
    · exact hspread.left_eq
    · exact hspread.attached ref part
  refine ⟨{ m with aspects := left }, classes', bind_of_eq_ok hrun rfl,
    fun _ _ _ => placeOf_eq_some_iff, hplaces, ?_, rfl, hspread.bare, hspread.others⟩
  intro a ha place
  rw [hplaces, List.count_append]
  congr 1
  by_cases hplace : m.placeOf classes a = place
  · rw [List.count_filter (by simpa using hplace), hnodup.count, if_pos ha, if_pos hplace]
  · rw [if_neg hplace, List.count_eq_zero]
    intro hmem
    exact hplace (of_decide_eq_true (List.mem_filter.1 hmem).2)

/-- Aspects for a class, for a method and a field of it, and for a class that is not there. -/
def shopConstants : ConstantTable :=
  .ofEntries
    [⟨"aspect/\\tag/\\class/\\Mall._0", .null⟩,
     ⟨"aspect/\\tag/\\class/\\Shop/\\field/\\door._0", .i32 1⟩,
     ⟨"aspect/\\tag/\\class/\\Shop._0", .i32 2⟩,
     ⟨"aspect/\\tag/\\class/\\Shop/\\method/\\open()._0", .i32 3⟩,
     ⟨"aspect/\\mark/\\class/\\town/Shop._0", .i32 4⟩]

/-- The class that they are for. -/
def shopClass : Class where
  name := ⟨"app%town/Shop"⟩
  flags := { declared := .ofList [.openAccess] }
  fields := [⟨⟨"Shop", "door"⟩, .class ⟨0, 0⟩, .ofList [.openAccess], []⟩]
  methods :=
    [{ name := "open", signature := "open()", flags := .ofList [.openAccess],
       returnType := .class ⟨0, 0⟩, arguments := [] }]
  token := ⟨2, 1⟩
  owner := 2

/-- The classes with this one alone. -/
def shopClasses : Classes := (({} : Classes).allocate 2 shopClass).2

/-- The module that defines it. -/
def shopModule : Module where
  id := 2
  name := "app"
  classTable := [⟨⟨0, 0⟩, true⟩]
  aspects := Aspect.ofConstants shopConstants

/-- One aspect of the shop fits nothing; the others go to a field, to the class twice and to a
method. -/
theorem distribute_places_shop :
    shopModule.aspects.map (shopModule.placeOf shopClasses) =
        [none, some (⟨0, 0⟩, .field 0), some (⟨0, 0⟩, .whole), some (⟨0, 0⟩, .method 0),
          some (⟨0, 0⟩, .whole)] ∧
      shopModule.Resolved shopClasses ∧
      ∃ m' classes', shopModule.distribute shopClasses = .ok m' classes' ∧
        shopModule.Distributed shopClasses m' classes' := by
  have honly : ∀ ref ∈ shopModule.ownClasses, ∀ c, shopClasses.get? ref = some c →
      c = shopClass := by
    intro ref href c hc
    cases List.mem_singleton.1 href
    exact (Option.some.inj hc).symm
  have hresolved : shopModule.Resolved shopClasses := by
    intro ref href c hc
    rw [honly ref href c hc]
    rfl
  refine ⟨by decide +kernel, hresolved, distribute_places rfl hresolved ?_⟩
  intro ref href c hc
  rw [honly ref href c hc]
  rfl

end Module

end VaultKernel
