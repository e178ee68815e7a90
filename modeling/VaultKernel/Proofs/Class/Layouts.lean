import VaultKernel.Proofs.Class.Succession

/-!
# Layouts and parents

A layout extends the layout of the parent by the declared fields (`BuiltOn`), so the slots of the
parent come first and are the same in both. The search for classes without a layout lists each class
once, and when it comes to a class the one above it is laid out: `Climb.built`. `Builds` says of any
change of the classes what it does to layouts.
-/

namespace VaultKernel

namespace Layout

variable {l l' : Layout} {name : String} {i : Nat}

/-! ## Slots of names -/

/-- A layout has an offset for a name exactly when it lists the name. -/
theorem exists_offset?_iff : (∃ i, l.offset? name = some i) ↔ name ∈ l.names := by
  rw [← Option.isSome_iff_exists]
  exact List.isSome_idxOf?

/-- The slot of a name is where it stands. -/
theorem getElem?_of_offset? (h : l.offset? name = some i) : l.names[i]? = some name := by
  obtain ⟨hi, hname, _⟩ := List.findIdx?_eq_some_iff_getElem.1 h
  rw [List.getElem?_eq_getElem hi, beq_iff_eq.1 hname]

/-- Offsets lie within the layout. -/
theorem lt_size_of_offset? (h : l.offset? name = some i) : i < l.size :=
  (List.getElem?_eq_some_iff.1 (getElem?_of_offset? h)).1

/-- No slot has two names. -/
theorem eq_of_offset? {name' : String} (h : l.offset? name = some i)
    (h' : l.offset? name' = some i) : name = name' :=
  Option.some.inj ((getElem?_of_offset? h).symm.trans (getElem?_of_offset? h'))

/-- Every slot has a name. -/
theorem exists_offset?_of_lt (hl : l.names.Nodup) (hi : i < l.size) :
    ∃ name, l.offset? name = some i := by
  obtain ⟨name, hname⟩ : ∃ name, l.names[i]? = some name := ⟨_, List.getElem?_eq_getElem hi⟩
  obtain ⟨j, hj⟩ := exists_offset?_iff.2 (List.mem_of_getElem? hname)
  have hij : i = j := (List.getElem?_inj hi hl).1 (hname.trans (getElem?_of_offset? hj).symm)
  exact ⟨name, hij ▸ hj⟩

/-- What comes first in a layout keeps its slot. -/
theorem offset?_of_prefix (h : l.names <+: l'.names) (ho : l.offset? name = some i) :
    l'.offset? name = some i := by
  obtain ⟨more, hmore⟩ := h
  show l'.names.findIdx? (· == name) = some i
  rw [← hmore, List.findIdx?_append, show l.names.findIdx? (· == name) = some i from ho]
  rfl

/-! ## Extending a layout -/

/-- A slot that is added comes after those that were there. -/
theorem names_push (l : Layout) (name : String) : l.names <+: (l.push name).names := by
  unfold push
  split
  · exact List.prefix_refl _
  · exact List.prefix_append _ _

/-- A layout lists what it listed, and the name that was added. -/
theorem mem_names_push {n : String} : n ∈ (l.push name).names ↔ n ∈ l.names ∨ n = name := by
  unfold push
  split
  · next hmem =>
      refine ⟨Or.inl, ?_⟩
      rintro (hn | rfl)
      · exact hn
      · exact hmem
  · simp

/-- No slot is added for a name that is listed. -/
theorem nodup_push (hl : l.names.Nodup) (name : String) : (l.push name).names.Nodup := by
  unfold push
  split
  · exact hl
  · next hmem => exact List.nodup_append.2 ⟨hl, by simp, by rintro a ha b hb rfl; simp_all⟩

/-- Slots that are added come after those that were there. -/
theorem names_extend (l : Layout) (names : List String) : l.names <+: (l.extend names).names := by
  induction names generalizing l with
  | nil => exact List.prefix_refl _
  | cons name rest ih => exact (names_push l name).trans (ih _)

/-- A layout lists what it listed, and the names that were added. -/
theorem mem_names_extend {names : List String} {n : String} :
    n ∈ (l.extend names).names ↔ n ∈ l.names ∨ n ∈ names := by
  induction names generalizing l with
  | nil => simp [extend]
  | cons name rest ih =>
      show n ∈ ((l.push name).extend rest).names ↔ _
      rw [ih, mem_names_push, List.mem_cons, or_assoc]

/-- No slots are added for names that are listed. -/
theorem nodup_extend (hl : l.names.Nodup) (names : List String) : (l.extend names).names.Nodup := by
  induction names generalizing l with
  | nil => exact hl
  | cons name rest ih => exact ih (nodup_push hl name)

end Layout

namespace Classes

open Arena

/-- The class behind a handle has a layout. -/
def LaidOut (classes : Classes) (r : ClassRef) (l : Layout) : Prop :=
  ∃ c, classes.get? r = some c ∧ c.layout = some l

/-- The layout of a class has the slots of the parent and then those of the fields that the class
declares; `laid` tells the layouts of parents. -/
inductive BuiltOn (laid : ClassRef → Layout → Prop) (c : Class) : Layout → Prop where
  | top : c.parent = none → BuiltOn laid c (({} : Layout).extend c.fieldNames)
  | parent {p : ClassRef} {l : Layout} : c.parent = some p → laid p l →
      BuiltOn laid c (l.extend c.fieldNames)

/-- No layout names a slot twice. -/
def Proper (classes : Classes) : Prop := ∀ r l, classes.LaidOut r l → l.names.Nodup

/-- What a change of the classes does to layouts: a new one is built on that of the parent. -/
structure Builds (classes classes' : Classes) : Prop where
  built : ∀ r c l, classes'.get? r = some c → c.layout = some l →
    classes.get? r = some c ∨ BuiltOn classes'.LaidOut c l
  proper : classes.Proper → classes'.Proper

variable {tokens : TokenCounter} {classes classes' : Classes} {r : ClassRef} {c : Class}

/-- A layout stays built on that of the parent as more layouts are made. -/
theorem BuiltOn.mono {laid laid' : ClassRef → Layout → Prop} {l : Layout} (h : BuiltOn laid c l)
    (hlaid : ∀ p l, laid p l → laid' p l) : BuiltOn laid' c l := by
  cases h with
  | top hnone => exact .top hnone
  | parent hp hl => exact .parent hp (hlaid _ _ hl)

/-- The layout that the class has itself does not matter. -/
theorem BuiltOn.withLayout {laid : ClassRef → Layout → Prop} {l : Layout} (h : BuiltOn laid c l)
    (layout : Option Layout) : BuiltOn laid { c with layout } l := by
  cases h with
  | top hnone => exact .top hnone
  | parent hp hl => exact .parent hp hl

/-! ## Changes that lay nothing out -/

/-- A change that makes no layout and touches none builds nothing. -/
theorem Builds.of_before
    (h : ∀ r owner c, classes'.entry? r = some (owner, c) → c.layout.isSome →
      classes.entry? r = some (owner, c)) : Builds classes classes' := by
  have hget : ∀ r c, classes'.get? r = some c → c.layout.isSome → classes.get? r = some c := by
    intro r c hc hlayout
    obtain ⟨owner, he⟩ := get?_eq_some_iff.1 hc
    exact get?_eq_some_iff.2 ⟨owner, h r owner c he hlayout⟩
  refine ⟨fun r c l hc hlayout => Or.inl (hget r c hc (by simp [hlayout])), ?_⟩
  rintro hproper r l ⟨c, hc, hlayout⟩
  exact hproper r l ⟨c, hget r c hc (by simp [hlayout]), hlayout⟩

theorem Builds.refl (classes : Classes) : Builds classes classes :=
  .of_before fun _ _ _ he _ => he

/-- A class that is defined without a layout changes no layout. -/
theorem Builds.define (hs : classes.Sound) (hroom : classes.HasRoom) (owner : Nat)
    (hnone : c.layout = none) :
    Builds classes (classes.allocate owner c).2 := by
  refine .of_before fun r o d he hlayout => ?_
  rcases (allocate_spec hs hroom owner c).entry?_cases he with ⟨_, heq⟩ | hold
  · cases heq
    simp [hnone] at hlayout
  · exact hold

/-- Rewriting a class without a layout into another one changes no layout. -/
theorem Builds.modify {f : Class → Class}
    (hf : ∀ c, classes.get? r = some c → (f c).layout = none) :
    Builds classes (classes.modify r f) := by
  refine .of_before fun q owner d he hlayout => ?_
  obtain ⟨d', hd', ⟨rfl, rfl⟩ | ⟨_, rfl⟩⟩ := entry?_of_modify he
  · simp [hf d' (get?_eq_some_iff.2 ⟨owner, hd'⟩)] at hlayout
  · exact hd'

/-- Removing an owner makes no layout. -/
theorem Builds.removeOwner (hs : classes.Sound) (owner : Nat) :
    Builds classes (classes.removeOwner owner).2 :=
  .of_before fun _ _ _ he _ => ((removeOwner_spec hs owner).1.entry?_of_kept he).2

/-! ## Laying out one class -/

/-- The layout to build on is that of the parent. -/
theorem LaidOut.parentLayout {p : ClassRef} {l : Layout} (hp : c.parent = some p)
    (hl : classes.LaidOut p l) : classes.parentLayout c = l := by
  obtain ⟨d, hd, hlayout⟩ := hl
  simp [Classes.parentLayout, hp, hd, hlayout]

/-- Laying a class out sets its layout and does nothing else. -/
theorem assignLayout_eq (hc : classes.get? r = some c) : classes.assignLayout r =
    classes.modify r fun d =>
      { d with layout := some ((classes.parentLayout c).extend c.fieldNames) } := by
  rw [assignLayout, hc]

/-- What the classes are after one of them was laid out. -/
theorem get?_assignLayout (hc : classes.get? r = some c) (q : ClassRef) :
    (classes.assignLayout r).get? q = if q = r then
      some { c with layout := some ((classes.parentLayout c).extend c.fieldNames) }
    else classes.get? q := by
  rw [assignLayout_eq hc, get?_modify]
  by_cases hq : q = r
  · rw [if_pos hq, if_pos hq, hq, hc, Option.map_some]
  · rw [if_neg hq, if_neg hq]

/-- A class whose parent is laid out gets its layout. -/
theorem builtOn_assignLayout (hc : classes.get? r = some c) (hnone : c.layout = none)
    (hparent : ∀ p, c.parent = some p → ∃ l, classes.LaidOut p l) :
    BuiltOn (classes.assignLayout r).LaidOut c ((classes.parentLayout c).extend c.fieldNames) := by
  cases hp : c.parent with
  | none =>
      have htop : classes.parentLayout c = {} := by simp [parentLayout, hp]
      rw [htop]
      exact .top hp
  | some p =>
      obtain ⟨l, d, hd, hlayout⟩ := hparent p hp
      have hl : classes.LaidOut p l := ⟨d, hd, hlayout⟩
      have hpr : p ≠ r := by
        rintro rfl
        cases hc.symm.trans hd
        simp [hnone] at hlayout
      rw [hl.parentLayout hp]
      refine .parent hp ⟨d, ?_, hlayout⟩
      rw [get?_assignLayout hc, if_neg hpr, hd]

/-- The layout to build on lists no name twice. -/
theorem Proper.parentLayout (h : classes.Proper) (c : Class) :
    (classes.parentLayout c).names.Nodup := by
  unfold Classes.parentLayout
  cases hl : (c.parent.bind classes.get?).bind (·.layout) with
  | none => exact List.nodup_nil
  | some l =>
      obtain ⟨d, hd, hlayout⟩ := Option.bind_eq_some_iff.1 hl
      obtain ⟨p, _, hd⟩ := Option.bind_eq_some_iff.1 hd
      exact h p l ⟨d, hd, hlayout⟩

/-- Laying out a class keeps all layouts proper. -/
theorem Proper.assignLayout (h : classes.Proper) (r : ClassRef) :
    (classes.assignLayout r).Proper := by
  cases hc : classes.get? r with
  | none =>
      rw [Classes.assignLayout, hc]
      exact h
  | some c =>
      rintro q l ⟨d, hd, hlayout⟩
      rw [get?_assignLayout hc] at hd
      split at hd
      · cases hd
        cases hlayout
        exact Layout.nodup_extend (h.parentLayout c) _
      · exact h q l ⟨d, hd, hlayout⟩

/-- Laying out a row of classes keeps all layouts proper. -/
theorem Proper.foldl (h : classes.Proper) (refs : List ClassRef) :
    (refs.foldl Classes.assignLayout classes).Proper := by
  induction refs generalizing classes with
  | nil => exact h
  | cons r rest ih => exact ih (h.assignLayout r)

/-! ## Laying out a class and those above it -/

/-- There is one way up from a class. -/
theorem Climb.unique {cursor : Option ClassRef} {path path' : List ClassRef}
    (h : Climb classes cursor path) (h' : Climb classes cursor path') : path = path' := by
  induction h generalizing path' with
  | top =>
      cases h'
      rfl
  | laid he hlayout =>
      cases h' with
      | laid => rfl
      | step he' hnone =>
          cases he.symm.trans he'
          simp [hnone] at hlayout
  | step he hnone _ _ ih =>
      cases h' with
      | laid he' hlayout =>
          cases he.symm.trans he'
          simp [hnone] at hlayout
      | step he' _ _ hrest =>
          cases he.symm.trans he'
          rw [ih hrest]

/-- The way up through a class goes on as the way up from it. -/
theorem Climb.split {cursor : Option ClassRef} {path : List ClassRef}
    (h : Climb classes cursor path) (hr : r ∈ path) :
    ∃ before after, path = before ++ r :: after ∧ Climb classes (some r) (r :: after) := by
  induction h with
  | top => cases hr
  | laid => cases hr
  | @step q _ _ path he hnone hcompleted hrest ih =>
      rcases List.mem_cons.1 hr with rfl | hr
      · exact ⟨[], path, rfl, .step he hnone hcompleted hrest⟩
      · obtain ⟨before, after, rfl, hclimb⟩ := ih hr
        exact ⟨q :: before, after, rfl, hclimb⟩

/-- The search comes to no class twice. -/
theorem Climb.nodup {cursor : Option ClassRef} {path : List ClassRef}
    (h : Climb classes cursor path) : path.Nodup := by
  induction h with
  | top => exact List.nodup_nil
  | laid => exact List.nodup_nil
  | step he hnone hcompleted hrest ih =>
      refine List.nodup_cons.2 ⟨fun hmem => ?_, ih⟩
      obtain ⟨before, after, heq, hclimb⟩ := hrest.split hmem
      -- what follows the class the second time is what followed it the first time
      have hsame := congrArg List.length (hclimb.unique (.step he hnone hcompleted hrest))
      have hlength := congrArg List.length heq
      simp at hsame hlength
      omega

/-- Every class of a climb gets a layout that is built on the one of its parent. -/
theorem Climb.built {cursor : Option ClassRef} {path : List ClassRef}
    (h : Climb classes cursor path) :
    (∀ p, cursor = some p → ∃ l, (path.reverse.foldl assignLayout classes).LaidOut p l) ∧
      ∀ r ∈ path, ∀ c l, (path.reverse.foldl assignLayout classes).get? r = some c →
        c.layout = some l → BuiltOn (path.reverse.foldl assignLayout classes).LaidOut c l := by
  induction h with
  | top => simp
  | @laid p owner c he hlayout =>
      refine ⟨fun q hq => ?_, by simp⟩
      cases hq
      obtain ⟨l, hl⟩ := Option.isSome_iff_exists.1 hlayout
      exact ⟨l, c, get?_eq_some_iff.2 ⟨owner, he⟩, hl⟩
  | @step r owner c path he hnone hcompleted hrest ih =>
      obtain ⟨habove, hbuilt⟩ := ih
      have hmem := (List.nodup_cons.1 (Climb.step he hnone hcompleted hrest).nodup).1
      rw [List.reverse_cons, List.foldl_append, List.foldl_cons, List.foldl_nil]
      generalize hmiddle : path.reverse.foldl assignLayout classes = middle at habove hbuilt
      -- the class itself is as it was when its parent has got its layout
      have hc : middle.get? r = some c := by
        obtain ⟨layout, hafter, _, hsame⟩ :=
          (Relaid.foldl path.reverse classes).present r owner c he
        rw [hsame (by simpa using hmem), hmiddle] at hafter
        exact get?_eq_some_iff.2 ⟨owner, hafter⟩
      have hnew := get?_assignLayout hc
      have hlaid : ∀ q l, middle.LaidOut q l → (middle.assignLayout r).LaidOut q l := by
        rintro q l ⟨d, hd, hlayout⟩
        have hqr : q ≠ r := by
          rintro rfl
          cases hc.symm.trans hd
          simp [hnone] at hlayout
        exact ⟨d, by rw [hnew, if_neg hqr, hd], hlayout⟩
      refine ⟨fun q hq => ?_, fun q hq d l hd hlayout => ?_⟩
      · cases hq
        exact ⟨_, _, by rw [hnew, if_pos rfl], rfl⟩
      · rw [hnew] at hd
        split at hd
        · cases hd
          cases hlayout
          exact (builtOn_assignLayout hc hnone habove).withLayout _
        · next hqr =>
            have hq' := (List.mem_cons.1 hq).resolve_left hqr
            exact (hbuilt q hq' d l hd hlayout).mono hlaid

/-- Laying out the classes on a way up, the uppermost first, builds each on its parent. -/
theorem Builds.layOut {cursor : Option ClassRef} {path : List ClassRef}
    (h : Climb classes cursor path) :
    Builds classes (path.reverse.foldl assignLayout classes) := by
  refine ⟨fun r c l hc hlayout => ?_, fun hproper => hproper.foldl _⟩
  by_cases hr : r ∈ path
  · exact Or.inr (h.built.2 r hr c l hc hlayout)
  · obtain ⟨owner, he⟩ := get?_eq_some_iff.1 hc
    have hrelaid := Relaid.foldl path.reverse classes
    obtain ⟨d, hd, _⟩ := hrelaid.before he
    obtain ⟨layout, hafter, _, hsame⟩ := hrelaid.present r owner d hd
    rw [hsame (by simpa using hr)] at hafter
    cases he.symm.trans hafter
    exact Or.inl (get?_eq_some_iff.2 ⟨owner, hd⟩)

/-! ## Classes with all their parents -/

/-- Every layout is proper and built on the one of a parent that is there. -/
structure Built (classes : Classes) : Prop where
  proper : classes.Proper
  built : ∀ r c l, classes.get? r = some c → c.layout = some l → BuiltOn classes.LaidOut c l

/-- Laid out classes stay as they are. -/
theorem Built.step (hb : Built classes) (hbuilds : Builds classes classes')
    (hkept : ∀ r owner c, classes.entry? r = some (owner, c) → c.layout.isSome →
      classes'.entry? r = some (owner, c)) : Built classes' := by
  refine ⟨hbuilds.proper hb.proper, fun r c l hc hlayout => ?_⟩
  rcases hbuilds.built r c l hc hlayout with hold | hnew
  · refine (hb.built r c l hold hlayout).mono ?_
    rintro p l ⟨d, hd, hlayout⟩
    obtain ⟨owner, he⟩ := get?_eq_some_iff.1 hd
    exact ⟨d, get?_eq_some_iff.2 ⟨owner, hkept p owner d he (by simp [hlayout])⟩, hlayout⟩
  · exact hnew

end Classes

end VaultKernel
