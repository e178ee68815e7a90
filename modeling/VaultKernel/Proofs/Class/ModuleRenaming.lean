import Mathlib.Data.List.Find
import VaultKernel.Proofs.Arena.Upcoming
import VaultKernel.Proofs.Class.Formed
import VaultKernel.Proofs.Class.Layouts
import VaultKernel.Proofs.Class.Renaming

/-!
# The same module among different classes

A module without dependencies refers to its own classes and to predefined ones. `Twins` says that
two stores hold the same module up to a renaming: under the exchanged handles lie the renamed
classes, the predefined classes have the same layouts, and the next handles are exchanged as well.
What else is in the two stores does not matter. There is one lemma for each way in which a load
reads or changes classes.
-/

namespace VaultKernel

open Arena Classes

/-- The classes that a module without dependencies can refer to. -/
def Module.Sees (m : Module) (r : ClassRef) : Prop := r ∈ m.ownClasses ∨ ∃ t : CoreType, r = t.ref

/-- A class that a module without dependencies can have. -/
structure Module.Admits (m : Module) (c : Class) : Prop where
  token : c.token.moduleId = m.id
  parent : ∀ p, c.parent = some p → m.Sees p

/-- The own classes of a module are the same in two stores, up to a renaming; so are the next `n`
handles, for which both stores have room. -/
structure Classes.Twins (ρ : Renaming) (n : Nat) (m : Module) (classes classes' : Classes) :
    Prop where
  sound : classes.Sound
  sound' : classes'.Sound
  room : classes.slots.size + n ≤ 4294967296
  room' : classes'.slots.size + n ≤ 4294967296
  upcoming : classes'.upcoming n = (classes.upcoming n).map ρ.classes
  predefined : ∀ t : CoreType, ∃ c c', classes.get? t.ref = some c ∧ classes'.get? t.ref = some c' ∧
    c.layout.isSome ∧ c'.layout = c.layout
  own : ∀ r ∈ m.ownClasses, ∃ c, classes.get? r = some c ∧
    classes'.get? (ρ.classes r) = some (c.rename ρ) ∧ m.Admits c

namespace Classes.Twins

variable {ρ : Renaming} {n : Nat} {m m₁ : Module} {classes classes' : Classes} {r : ClassRef}
  {excused : Failure → Prop}

/-! ## Reading classes -/

/-- A search among the own classes. -/
theorem find?_own (h : Twins ρ n m classes classes') {p : Class → Bool}
    (hp : ∀ c, p (c.rename ρ) = p c) :
    ((m.rename ρ).ownClasses.find? fun ref =>
      match classes'.get? ref with
      | some c => p c
      | none => false) =
    (m.ownClasses.find? fun ref =>
      match classes.get? ref with
      | some c => p c
      | none => false).map ρ.classes := by
  rw [Module.ownClasses_rename, List.find?_map]
  congr 1
  refine List.find?_congr fun ref href => ?_
  obtain ⟨c, hc, hc', _⟩ := h.own ref href
  rw [Function.comp_apply, hc, hc']
  exact hp c

/-- The parent of an own class is there in both stores, with the same layout. -/
theorem parentLayout (h : Twins ρ n m classes classes') {c : Class} (hc : m.Admits c) :
    classes'.parentLayout (c.rename ρ) = classes.parentLayout c := by
  unfold Classes.parentLayout
  show (((c.parent.map ρ.classes).bind _).bind _).getD _ = _
  cases hparent : c.parent with
  | none => rfl
  | some p =>
      rcases hc.parent p hparent with hown | ⟨t, rfl⟩
      · obtain ⟨d, hd, hd', _⟩ := h.own p hown
        simp only [Option.map_some, Option.bind_some, hd, hd']
        rfl
      · obtain ⟨d, d', hd, hd', _, hlayout⟩ := h.predefined t
        simp only [Option.map_some, Option.bind_some, ρ.core, hd, hd', hlayout]

/-- The search for classes without a layout goes the same way. -/
theorem withoutLayout (h : Twins ρ n m classes classes') {fuel : Nat} {cursor : Option ClassRef}
    (hcursor : ∀ r, cursor = some r → m.Sees r) (chain : List ClassRef) :
    classes'.withoutLayout fuel (cursor.map ρ.classes) (chain.map ρ.classes) =
      List.map ρ.classes <$> classes.withoutLayout fuel cursor chain := by
  induction fuel generalizing cursor chain with
  | zero => rfl
  | succ fuel ih =>
      cases cursor with
      | none => rfl
      | some r =>
          rw [Option.map_some, Classes.withoutLayout, Classes.withoutLayout]
          rcases hcursor r rfl with hown | ⟨t, rfl⟩
          · obtain ⟨c, hc, hc', hadmits⟩ := h.own r hown
            have hmem : ρ.classes r ∈ chain.map ρ.classes ↔ r ∈ chain := by simp
            rw [hc, hc']
            show (if c.layout.isSome then _ else if !c.isCompleted then _ else
              if ρ.classes r ∈ chain.map ρ.classes then _ else _) = _ <$> (if c.layout.isSome then _
                else if !c.isCompleted then _ else if r ∈ chain then _ else _)
            rw [if_congr hmem rfl rfl]
            split
            · rfl
            · split
              · rfl
              · split
                · rfl
                · exact ih hadmits.parent (r :: chain)
          · -- predefined classes are laid out
            obtain ⟨c, c', hc, hc', hlaid, hlayout⟩ := h.predefined t
            rw [ρ.core, hc, hc']
            dsimp only
            rw [if_pos hlaid, if_pos (hlayout ▸ hlaid)]
            rfl

/-- The chain to lay out is the renamed chain. -/
theorem layoutChain (h : Twins ρ n m classes classes') (hr : m.Sees r) :
    classes'.layoutChain (ρ.classes r) = List.map ρ.classes <$> classes.layoutChain r := by
  have hleft := Nat.le_max_left (classes.slots.size + 2) (classes'.slots.size + 2)
  have hright := Nat.le_max_right (classes.slots.size + 2) (classes'.slots.size + 2)
  have hcursor : ∀ q, some r = some q → m.Sees q := by
    intro q hq
    cases hq
    exact hr
  rw [layoutChain_eq _ hleft, layoutChain_eq _ hright]
  exact h.withoutLayout hcursor []

/-- It finds own classes only. -/
theorem mem_layoutChain (h : Twins ρ n m classes classes') (hr : m.Sees r) {chain : List ClassRef}
    (hchain : classes.layoutChain r = .ok chain) : ∀ q ∈ chain, q ∈ m.ownClasses := by
  have hsees : ∀ p, m.Sees p →
      p ∈ m.ownClasses ∨ ∃ c, classes.get? p = some c ∧ c.layout.isSome := by
    rintro p (hown | ⟨t, rfl⟩)
    · exact Or.inl hown
    · obtain ⟨c, _, hc, _, hlaid, _⟩ := h.predefined t
      exact Or.inr ⟨c, hc, hlaid⟩
  obtain ⟨path, hclimb, rfl⟩ := layoutChain_spec hchain
  refine fun q hq => hclimb.within (fun q c hown hc p hp => hsees p ?_) (fun p hp => ?_) q
    (List.mem_reverse.1 hq)
  · obtain ⟨d, hd, _, hadmits⟩ := h.own q hown
    cases hc.symm.trans hd
    exact hadmits.parent p hp
  · cases hp
    exact hsees r hr

/-! ## Changing the module -/

/-- What a module has besides its classes does not matter to the pair of stores. -/
theorem withModule (h : Twins ρ n m classes classes') (hid : m₁.id = m.id)
    (hown : m₁.ownClasses = m.ownClasses) : Twins ρ n m₁ classes classes' := by
  refine ⟨h.sound, h.sound', h.room, h.room', h.upcoming, h.predefined, fun r hr => ?_⟩
  rw [hown] at hr
  obtain ⟨c, hc, hc', hadmits⟩ := h.own r hr
  refine ⟨c, hc, hc', ?_, fun p hp => ?_⟩
  · rw [hid]
    exact hadmits.token
  · rw [Module.Sees, hown]
    exact hadmits.parent p hp

/-- Fewer handles are known beforehand. -/
theorem fewer {k : Nat} (h : Twins ρ n m classes classes') (hle : k ≤ n) :
    Twins ρ k m classes classes' := by
  refine ⟨h.sound, h.sound', Nat.le_trans (Nat.add_le_add_left hle _) h.room,
    Nat.le_trans (Nat.add_le_add_left hle _) h.room', ?_, h.predefined, h.own⟩
  rw [← upcoming_take classes' hle, h.upcoming, ← List.map_take, upcoming_take classes hle]

/-! ## Changing classes -/

/-- An own class is changed in the same way. -/
theorem modify (h : Twins ρ n m classes classes') (hr : r ∈ m.ownClasses) {f f' : Class → Class}
    (hf : ∀ c, classes.get? r = some c → m.Admits c → f' (c.rename ρ) = (f c).rename ρ ∧
      m.Admits (f c) ∧ (c.layout.isSome → (f c).layout.isSome)) :
    Twins ρ n m (classes.modify r f) (classes'.modify (ρ.classes r) f') := by
  obtain ⟨c, hc, hc', hadmits⟩ := h.own r hr
  obtain ⟨hrename, hadmits', hlaid⟩ := hf c hc hadmits
  refine ⟨h.sound.modify r f, h.sound'.modify _ f', ?_, ?_, ?_, fun t => ?_, fun q hq => ?_⟩
  · rw [size_slots_modify]
    exact h.room
  · rw [size_slots_modify]
    exact h.room'
  · rw [upcoming_modify, upcoming_modify, h.upcoming]
  · obtain ⟨d, d', hd, hd', hdlaid, hdlayout⟩ := h.predefined t
    rw [get?_modify, get?_modify, hd, hd']
    by_cases ht : t.ref = r
    · -- no own class is predefined, but it would do no harm
      subst ht
      cases hd.symm.trans hc
      rw [ρ.core] at hc' ⊢
      cases hd'.symm.trans hc'
      rw [if_pos rfl, if_pos rfl]
      exact ⟨_, _, rfl, rfl, hlaid hdlaid, by rw [hrename]; rfl⟩
    · have ht' : t.ref ≠ ρ.classes r := by
        rw [← ρ.core t]
        simpa using ht
      rw [if_neg ht, if_neg ht']
      exact ⟨d, d', rfl, rfl, hdlaid, hdlayout⟩
  · rw [get?_modify, get?_modify]
    by_cases heq : q = r
    · subst heq
      rw [if_pos rfl, if_pos rfl, hc, hc']
      exact ⟨f c, rfl, by rw [← hrename]; rfl, hadmits'⟩
    · rw [if_neg heq, if_neg (by simpa using heq)]
      exact h.own q hq

/-- Laying out one class is the same in both stores. -/
theorem assignLayout (h : Twins ρ n m classes classes') (hr : r ∈ m.ownClasses) :
    Twins ρ n m (classes.assignLayout r) (classes'.assignLayout (ρ.classes r)) := by
  obtain ⟨c, hc, hc', hadmits⟩ := h.own r hr
  rw [assignLayout_eq hc, assignLayout_eq hc', h.parentLayout hadmits]
  refine h.modify hr fun d _ hd => ⟨?_, ⟨hd.token, hd.parent⟩, fun _ => rfl⟩
  have hnames : (c.rename ρ).fieldNames = c.fieldNames := by
    simp [Class.fieldNames, Class.rename, Field.rename, Function.comp_def]
  rw [hnames]
  rfl

/-- Laying out several classes is the same in both stores. -/
theorem assignLayouts {refs : List ClassRef} (h : Twins ρ n m classes classes')
    (hrefs : ∀ r ∈ refs, r ∈ m.ownClasses) :
    Twins ρ n m (refs.foldl Classes.assignLayout classes)
      ((refs.map ρ.classes).foldl Classes.assignLayout classes') := by
  induction refs generalizing classes classes' with
  | nil => exact h
  | cons r refs ih =>
      exact ih (h.assignLayout (hrefs r (by simp))) fun q hq => hrefs q (by simp [hq])

/-- A class is stored in both. -/
theorem allocate (h : Twins ρ (n + 1) m classes classes') {c : Class} (hc : m.Admits c)
    (owner owner' : Nat) :
    ρ.classes (classes.allocate owner c).1 = (classes'.allocate owner' (c.rename ρ)).1 ∧
      Twins ρ n (m.addOwn (classes.allocate owner c).1) (classes.allocate owner c).2
        (classes'.allocate owner' (c.rename ρ)).2 := by
  have hroom : classes.HasRoom := Or.inr (by have := h.room; omega)
  have hroom' : classes'.HasRoom := Or.inr (by have := h.room'; omega)
  have hsize := size_slots_allocate_le classes owner c
  have hsize' := size_slots_allocate_le classes' owner' (c.rename ρ)
  have hall := allocate_spec h.sound hroom owner c
  have hall' := allocate_spec h.sound' hroom' owner' (c.rename ρ)
  have hupcoming := h.upcoming
  rw [upcoming_allocate h.sound hroom owner c,
    upcoming_allocate h.sound' hroom' owner' (c.rename ρ), List.map_cons,
    List.cons.injEq] at hupcoming
  have hkept : ∀ q d, classes.get? q = some d →
      (classes.allocate owner c).2.get? q = some d := by
    intro q d hd
    obtain ⟨o, he⟩ := get?_eq_some_iff.1 hd
    exact get?_eq_some_iff.2 ⟨o, hall.extends.entry? he⟩
  have hkept' : ∀ q d, classes'.get? q = some d →
      (classes'.allocate owner' (c.rename ρ)).2.get? q = some d := by
    intro q d hd
    obtain ⟨o, he⟩ := get?_eq_some_iff.1 hd
    exact get?_eq_some_iff.2 ⟨o, hall'.extends.entry? he⟩
  have hown : (m.addOwn (classes.allocate owner c).1).ownClasses =
      m.ownClasses ++ [(classes.allocate owner c).1] := by
    simp [Module.ownClasses, Module.addOwn]
  have hadmits : ∀ d, m.Admits d → (m.addOwn (classes.allocate owner c).1).Admits d := by
    refine fun d hd => ⟨hd.token, fun p hp => (hd.parent p hp).imp_left fun hmem => ?_⟩
    rw [hown]
    exact List.mem_append_left _ hmem
  refine ⟨hupcoming.1.symm, h.sound.allocate hroom owner c, h.sound'.allocate hroom' owner' _,
    ?_, ?_, hupcoming.2, fun t => ?_, fun q hq => ?_⟩
  · have hle := h.room
    omega
  · have hle := h.room'
    omega
  · obtain ⟨d, d', hd, hd', hlaid, hlayout⟩ := h.predefined t
    exact ⟨d, d', hkept _ d hd, hkept' _ d' hd', hlaid, hlayout⟩
  · rw [hown, List.mem_append, List.mem_singleton] at hq
    rcases hq with hq | rfl
    · obtain ⟨d, hd, hd', hd''⟩ := h.own q hq
      exact ⟨d, hkept q d hd, hkept' _ _ hd', hadmits d hd''⟩
    · refine ⟨c, get?_eq_some_iff.2 ⟨owner, hall.entry?_self⟩, ?_, hadmits c hc⟩
      rw [← hupcoming.1]
      exact get?_eq_some_iff.2 ⟨owner', hall'.entry?_self⟩

/-! ## Aspects -/

/-- An aspect goes to the same place in both stores. -/
theorem attachOne (h : Twins ρ n m classes classes') (aspect : Aspect) :
    Agrees excused
      (fun rest cs rest' cs' => rest' = rest ∧ Twins ρ n m cs cs')
      (m.attachOne aspect classes) ((m.rename ρ).attachOne aspect classes') := by
  have hnamed : (m.rename ρ).ownNamed? classes' aspect.target.className =
      (m.ownNamed? classes aspect.target.className).map ρ.classes :=
    h.find?_own (p := fun c => c.name.isNamed aspect.target.className) fun _ => rfl
  unfold Module.attachOne
  rw [hnamed]
  cases hfind : m.ownNamed? classes aspect.target.className with
  | none => exact .done ⟨rfl, h⟩
  | some ref =>
      have hown : ref ∈ m.ownClasses := List.mem_of_find?_eq_some hfind
      obtain ⟨c, hc, hc', hadmits⟩ := h.own ref hown
      simp only [Option.map_some, hc, hc']
      rw [Class.attach?_rename, show (c.rename ρ).flags = c.flags from rfl]
      cases c.flags.unresolved with
      | true => exact .failed _ _ _
      | false =>
          cases hattach : c.attach? aspect with
          | none => exact .done ⟨rfl, h⟩
          | some changed =>
              obtain ⟨_, hparent, _, htoken, _, hlayout⟩ := Class.attach?_frame hattach
              refine .done ⟨rfl, h.modify hown fun d hd _ => ⟨rfl, ⟨?_, ?_⟩, ?_⟩⟩
              · rw [htoken]
                exact hadmits.token
              · rw [hparent]
                exact hadmits.parent
              · cases hd.symm.trans hc
                rw [hlayout]
                exact id

/-- Aspects go to the same places in both stores. -/
theorem attachAll (h : Twins ρ n m classes classes') (aspects : List Aspect) :
    Agrees excused
      (fun rest cs rest' cs' => rest' = rest ∧ Twins ρ n m cs cs')
      (m.attachAll aspects classes) ((m.rename ρ).attachAll aspects classes') := by
  induction aspects generalizing classes classes' with
  | nil => exact .done ⟨rfl, h⟩
  | cons aspect rest ih =>
      refine (h.attachOne aspect).bind fun unattached cs _ cs' hcs => ?_
      obtain ⟨rfl, hcs⟩ := hcs
      refine (ih hcs).bind fun others ds _ ds' hds => ?_
      obtain ⟨rfl, hds⟩ := hds
      exact .done ⟨rfl, hds⟩

/-- Distribution does the same in both stores. -/
theorem distribute (h : Twins ρ n m classes classes') :
    Agrees excused
      (fun m₁ cs m₁' cs' => (m₁' = m₁.rename ρ ∧ m₁.id = m.id ∧ m₁.dependencies = m.dependencies) ∧
        Twins ρ n m₁ cs cs')
      (m.distribute classes) ((m.rename ρ).distribute classes') := by
  refine (h.attachAll m.aspects).bind fun rest cs _ cs' hcs => ?_
  obtain ⟨rfl, hcs⟩ := hcs
  exact .done ⟨⟨rfl, rfl, rfl⟩, hcs.withModule rfl rfl⟩

end Classes.Twins

end VaultKernel
