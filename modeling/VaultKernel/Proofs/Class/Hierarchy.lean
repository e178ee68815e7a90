import Mathlib.Logic.Relation
import VaultKernel.Class.Hierarchy
import VaultKernel.Proofs.Arena.Slots

/-!
# Chains of parents

A class is `Rooted` if it has a layout and so has every class above it, up to the top or to a class
that was removed; such a chain has no cycle. `Climb` describes what the search for classes without a
layout goes through. Read `layoutChain_spec` and `Relaid` together: laying out the classes that the
search finds makes all of them rooted.
-/

namespace VaultKernel.Classes

open Relation Arena

/-- One class extends another one. -/
def Parent (classes : Classes) (r p : ClassRef) : Prop :=
  ∃ c, classes.get? r = some c ∧ c.parent = some p

/-- A class with a layout above which every class has one, or a class that is gone. -/
inductive Rooted (classes : Classes) : ClassRef → Prop where
  | gone {r : ClassRef} : classes.Issued r → classes.entry? r = none → Rooted classes r
  | laid {r : ClassRef} {owner : Nat} {c : Class} : classes.entry? r = some (owner, c) →
      c.layout.isSome → c.isCompleted → (∀ p, c.parent = some p → Rooted classes p) →
      Rooted classes r

/-- What a rooted class extends is rooted. -/
theorem Rooted.parent {classes : Classes} {r p : ClassRef} (hr : Rooted classes r)
    (hparent : Parent classes r p) : Rooted classes p := by
  obtain ⟨c, hc, hp⟩ := hparent
  obtain ⟨owner, he⟩ := get?_eq_some_iff.1 hc
  cases hr with
  | gone _ hnone =>
      rw [hnone] at he
      cases he
  | laid he' _ _ hparents =>
      rw [he] at he'
      cases he'
      exact hparents p hp

/-- A rooted class is not among its own ancestors. -/
theorem Rooted.not_own_ancestor {classes : Classes} {r : ClassRef} (hr : Rooted classes r) :
    ¬ TransGen (Parent classes) r r := by
  induction hr with
  | gone _ hnone =>
      intro hcycle
      obtain ⟨p, ⟨c, hc, _⟩, _⟩ := TransGen.head'_iff.1 hcycle
      rw [get?, hnone] at hc
      cases hc
  | laid he _ _ _ ih =>
      intro hcycle
      obtain ⟨p, hparent, hback⟩ := TransGen.head'_iff.1 hcycle
      obtain ⟨c, hc, hp⟩ := hparent
      rw [get?, he] at hc
      cases hc
      -- a cycle through the class is one through its parent
      exact ih p hp (TransGen.tail' hback ⟨_, by rw [get?, he]; rfl, hp⟩)

/-- No ancestor of a rooted class is among its own ancestors. -/
theorem Rooted.acyclic {classes : Classes} {r a : ClassRef} (hr : Rooted classes r)
    (habove : ReflTransGen (Parent classes) r a) : ¬ TransGen (Parent classes) a a := by
  have ha : Rooted classes a := by
    induction habove with
    | refl => exact hr
    | tail _ hparent ih => exact ih.parent hparent
  exact ha.not_own_ancestor

/-- Rooted classes stay rooted if laid out classes keep their parents as long as they are there, and
what is gone does not come back. -/
theorem Rooted.mono {classes classes' : Classes}
    (hissued : ∀ r, classes.Issued r → classes'.Issued r)
    (hgone : ∀ r, classes.Issued r → classes.entry? r = none → classes'.entry? r = none)
    (hlaid : ∀ r owner c, classes.entry? r = some (owner, c) → c.layout.isSome →
      classes'.entry? r = none ∨ ∃ owner' c', classes'.entry? r = some (owner', c') ∧
        c'.layout.isSome ∧ c'.flags = c.flags ∧ c'.parent = c.parent)
    {r : ClassRef} (hr : Rooted classes r) : Rooted classes' r := by
  induction hr with
  | gone hi hnone => exact .gone (hissued _ hi) (hgone _ hi hnone)
  | laid he hlayout hcompleted _ ih =>
      have hi := hissued _ (.of_entry he)
      rcases hlaid _ _ _ he hlayout with hnone | ⟨owner', c', he', hlayout', hflags, hparent⟩
      · -- the chain now ends here
        exact .gone hi hnone
      · refine .laid he' hlayout' ?_ fun p hp => ih p (hparent ▸ hp)
        rw [Class.isCompleted, hflags]
        exact hcompleted

/-! ## The search for classes without a layout -/

/-- The classes without a layout from a class on upwards, up to the top or to a class with one. -/
inductive Climb (classes : Classes) : Option ClassRef → List ClassRef → Prop where
  | top : Climb classes none []
  | laid {r : ClassRef} {owner : Nat} {c : Class} : classes.entry? r = some (owner, c) →
      c.layout.isSome → Climb classes (some r) []
  | step {r : ClassRef} {owner : Nat} {c : Class} {path : List ClassRef} :
      classes.entry? r = some (owner, c) → c.layout = none → c.isCompleted →
      Climb classes c.parent path → Climb classes (some r) (r :: path)

/-- A climb stays among classes whose parents are among them or have a layout. -/
theorem Climb.within {classes : Classes} {own : ClassRef → Prop} {cursor : Option ClassRef}
    {path : List ClassRef} (hclimb : Climb classes cursor path)
    (hparent : ∀ r c, own r → classes.get? r = some c → ∀ p, c.parent = some p →
      own p ∨ ∃ c', classes.get? p = some c' ∧ c'.layout.isSome)
    (hcursor : ∀ r, cursor = some r → own r ∨ ∃ c, classes.get? r = some c ∧ c.layout.isSome) :
    ∀ r ∈ path, own r := by
  induction hclimb with
  | top => simp
  | laid => simp
  | @step r owner c path he hnone _ _ ih =>
      have hc : classes.get? r = some c := get?_eq_some_iff.2 ⟨owner, he⟩
      have hown : own r := by
        refine (hcursor r rfl).resolve_right ?_
        rintro ⟨c', hc', hlayout⟩
        cases hc.symm.trans hc'
        rw [hnone] at hlayout
        cases hlayout
      exact List.forall_mem_cons.2 ⟨hown, ih (hparent r c hown hc)⟩

/-- The search goes all the way, because it meets no class twice. -/
theorem withoutLayout_spec {classes : Classes} {fuel : Nat} {cursor : Option ClassRef}
    {chain result : List ClassRef} (hnodup : chain.Nodup) (hlive : ∀ r ∈ chain, classes.contains r)
    (hfuel : classes.slots.size < fuel + chain.length)
    (hresult : classes.withoutLayout fuel cursor chain = .ok result) :
    ∃ path, Climb classes cursor path ∧ result = path.reverse ++ chain := by
  induction fuel generalizing cursor chain with
  | zero =>
      -- the chain would hold more living classes than there are slots
      have hle := length_le_of_contains hnodup hlive
      omega
  | succ fuel ih =>
      cases cursor with
      | none =>
          cases hresult
          exact ⟨[], .top, rfl⟩
      | some r =>
          rw [withoutLayout] at hresult
          cases hc : classes.get? r with
          | none =>
              rw [hc] at hresult
              cases hresult
          | some c =>
              obtain ⟨owner, he⟩ := get?_eq_some_iff.1 hc
              simp only [hc] at hresult
              by_cases hlayout : c.layout.isSome
              · rw [if_pos hlayout] at hresult
                cases hresult
                exact ⟨[], .laid he hlayout, rfl⟩
              · by_cases hcompleted : c.isCompleted
                · by_cases hmem : r ∈ chain
                  · simp [hlayout, hcompleted, hmem] at hresult
                  · rw [if_neg hlayout, if_neg (by simp [hcompleted]), if_neg hmem] at hresult
                    have hlive' : ∀ q ∈ r :: chain, classes.contains q := by
                      intro q hq
                      rcases List.mem_cons.1 hq with rfl | hq
                      · rw [contains, he]
                        rfl
                      · exact hlive q hq
                    obtain ⟨path, hclimb, hpath⟩ := ih (List.nodup_cons.2 ⟨hmem, hnodup⟩) hlive'
                      (by rw [List.length_cons]; omega) hresult
                    refine ⟨r :: path, .step he (by simpa using hlayout) hcompleted hclimb, ?_⟩
                    simp [hpath]
                · simp [hlayout, hcompleted] at hresult

/-- The classes to lay out are those without a layout on the way up, the uppermost first. -/
theorem layoutChain_spec {classes : Classes} {ref : ClassRef} {chain : List ClassRef}
    (hchain : classes.layoutChain ref = .ok chain) :
    ∃ path, Climb classes (some ref) path ∧ chain = path.reverse := by
  obtain ⟨path, hclimb, hpath⟩ :=
    withoutLayout_spec List.nodup_nil (by simp) (by simp) hchain
  exact ⟨path, hclimb, by simpa using hpath⟩

/-- The search is over before its steps are, so further ones change nothing. -/
theorem withoutLayout_succ {classes : Classes} {fuel : Nat} {cursor : Option ClassRef}
    {chain : List ClassRef} (hnodup : chain.Nodup) (hlive : ∀ r ∈ chain, classes.contains r)
    (hfuel : classes.slots.size < fuel + chain.length) :
    classes.withoutLayout (fuel + 1) cursor chain = classes.withoutLayout fuel cursor chain := by
  induction fuel generalizing cursor chain with
  | zero =>
      have hle := length_le_of_contains hnodup hlive
      omega
  | succ fuel ih =>
      cases cursor with
      | none => rfl
      | some r =>
          rw [withoutLayout, withoutLayout]
          cases hc : classes.get? r with
          | none => rfl
          | some c =>
              dsimp only
              split
              · rfl
              · split
                · rfl
                · split
                  · rfl
                  · next hmem =>
                      obtain ⟨owner, he⟩ := get?_eq_some_iff.1 hc
                      refine ih (List.nodup_cons.2 ⟨hmem, hnodup⟩) ?_
                        (by rw [List.length_cons]; omega)
                      intro q hq
                      rcases List.mem_cons.1 hq with rfl | hq
                      · rw [contains, he]
                        rfl
                      · exact hlive q hq

/-- Any number of steps that is large enough will do. -/
theorem layoutChain_eq {classes : Classes} (ref : ClassRef) {fuel : Nat}
    (hfuel : classes.slots.size + 2 ≤ fuel) :
    classes.layoutChain ref = classes.withoutLayout fuel (some ref) [] := by
  induction hfuel with
  | refl => rfl
  | @step fuel hle ih =>
      have hlt : classes.slots.size < fuel + ([] : List ClassRef).length :=
        Nat.lt_of_succ_lt hle
      rw [ih, withoutLayout_succ List.nodup_nil (by simp) hlt]

/-- One of several classes extends another one of them. -/
def Extends (classes : Classes) (own : ClassRef → Prop) (r p : ClassRef) : Prop :=
  own r ∧ own p ∧ Parent classes r p

/-- If every class of some is complete and extends one of them or a class with a layout, then the
search from one of them fails only where their parents lead back to a class. -/
theorem withoutLayout_eq_error {classes : Classes} {own : ClassRef → Prop}
    (hcomplete : ∀ r c, own r → classes.get? r = some c → c.isCompleted)
    (hparent : ∀ r c p, own r → classes.get? r = some c → c.parent = some p →
      own p ∨ ∃ c', classes.get? p = some c' ∧ c'.layout.isSome)
    (hlive : ∀ r, own r → (classes.get? r).isSome) {fuel : Nat} {cursor : Option ClassRef}
    {chain : List ClassRef} {cause : Fatal}
    (hcursor : ∀ r, cursor = some r → own r ∨ ∃ c, classes.get? r = some c ∧ c.layout.isSome)
    (hchain : ∀ r, cursor = some r → own r → ∀ q ∈ chain, TransGen (Extends classes own) q r)
    (h : classes.withoutLayout fuel cursor chain = .error cause) :
    ∃ r c, classes.get? r = some c ∧ cause = .inheritanceCycle c.name.full ∧
      TransGen (Extends classes own) r r := by
  induction fuel generalizing cursor chain with
  | zero => cases h
  | succ fuel ih =>
      cases cursor with
      | none => cases h
      | some r =>
          rw [withoutLayout] at h
          cases hc : classes.get? r with
          | none =>
              -- a class that is gone is neither one of them nor laid out
              rcases hcursor r rfl with hown | ⟨c, hc', _⟩
              · have hsome := hlive r hown
                rw [hc] at hsome
                cases hsome
              · cases hc.symm.trans hc'
          | some c =>
              simp only [hc] at h
              by_cases hlayout : c.layout.isSome
              · rw [if_pos hlayout] at h
                cases h
              · have hown : own r := by
                  refine (hcursor r rfl).resolve_right ?_
                  rintro ⟨c', hc', hlaid⟩
                  cases hc.symm.trans hc'
                  exact hlayout hlaid
                rw [if_neg hlayout, if_neg (by simp [hcomplete r c hown hc])] at h
                by_cases hmem : r ∈ chain
                · rw [if_pos hmem] at h
                  cases h
                  exact ⟨r, c, hc, rfl, hchain r rfl hown r hmem⟩
                · rw [if_neg hmem] at h
                  refine ih (fun p hp => hparent r c p hown hc hp) (fun p hp hown' q hq => ?_) h
                  have hstep : Extends classes own r p := ⟨hown, hown', c, hc, hp⟩
                  rcases List.mem_cons.1 hq with rfl | hq
                  · exact .single hstep
                  · exact (hchain r rfl hown q hq).tail hstep

/-! ## Laying out classes -/

/-- The listed classes were laid out and nothing else was changed. -/
structure Relaid (classes : Classes) (refs : List ClassRef) (classes' : Classes) : Prop where
  generations : ∀ i, classes'.generation? i = classes.generation? i
  owners : ∀ i, classes'.ownerAt? i = classes.ownerAt? i
  sound : classes.Sound → classes'.Sound
  absent : ∀ r, classes.entry? r = none → classes'.entry? r = none
  present : ∀ r owner c, classes.entry? r = some (owner, c) →
    ∃ layout, classes'.entry? r = some (owner, { c with layout }) ∧
      (r ∈ refs → layout.isSome) ∧ (r ∉ refs → layout = c.layout)

theorem Relaid.refl (classes : Classes) : Relaid classes [] classes :=
  ⟨fun _ => rfl, fun _ => rfl, id, fun _ => id, fun _ _ c he => ⟨c.layout, he, by simp⟩⟩

/-- Laying out one class changes this one. -/
theorem Relaid.assignLayout (classes : Classes) (ref : ClassRef) :
    Relaid classes [ref] (classes.assignLayout ref) := by
  unfold Classes.assignLayout
  cases hc : classes.get? ref with
  | none =>
      refine ⟨fun _ => rfl, fun _ => rfl, id, fun _ => id, fun r owner c he => ?_⟩
      have hne : r ≠ ref := by
        rintro rfl
        rw [get?, he] at hc
        cases hc
      exact ⟨c.layout, he, by simp [hne]⟩
  | some c =>
      refine ⟨generation?_modify _ _ _, ownerAt?_modify _ _ _, fun hs => hs.modify _ _, ?_, ?_⟩
      · intro r hnone
        rw [entry?_modify, hnone]
        split <;> rfl
      · intro r owner c' he
        rw [entry?_modify, he]
        by_cases hr : r = ref
        · rw [if_pos hr]
          exact ⟨_, rfl, by simp [hr]⟩
        · rw [if_neg hr]
          exact ⟨c'.layout, rfl, by simp [hr]⟩

/-- Classes that are laid out in two portions are laid out. -/
theorem Relaid.trans {classes₁ classes₂ classes₃ : Classes} {refs refs' : List ClassRef}
    (h₁₂ : Relaid classes₁ refs classes₂) (h₂₃ : Relaid classes₂ refs' classes₃) :
    Relaid classes₁ (refs ++ refs') classes₃ := by
  refine ⟨?_, ?_, fun hs => h₂₃.sound (h₁₂.sound hs), ?_, ?_⟩
  · intro i
    rw [h₂₃.generations, h₁₂.generations]
  · intro i
    rw [h₂₃.owners, h₁₂.owners]
  · intro r hnone
    exact h₂₃.absent r (h₁₂.absent r hnone)
  · intro r owner c he
    obtain ⟨layout, he₂, hsome, hsame⟩ := h₁₂.present r owner c he
    obtain ⟨layout', he₃, hsome', hsame'⟩ := h₂₃.present r owner _ he₂
    refine ⟨layout', he₃, ?_, ?_⟩
    · intro hmem
      by_cases hmem' : r ∈ refs'
      · exact hsome' hmem'
      · rw [hsame' hmem']
        exact hsome ((List.mem_append.1 hmem).resolve_right hmem')
    · intro hmem
      rw [List.mem_append, not_or] at hmem
      rw [hsame' hmem.2]
      exact hsame hmem.1

/-- Laying out one class after another changes those that are listed. -/
theorem Relaid.foldl (refs : List ClassRef) (classes : Classes) :
    Relaid classes refs (refs.foldl Classes.assignLayout classes) := by
  induction refs generalizing classes with
  | nil => exact Relaid.refl classes
  | cons ref rest ih => exact (Relaid.assignLayout classes ref).trans (ih _)

/-- Laying classes out hands out no handle. -/
theorem Relaid.issued {classes classes' : Classes} {refs : List ClassRef}
    (hr : Relaid classes refs classes') (r : ClassRef) : classes'.Issued r ↔ classes.Issued r := by
  unfold Issued
  rw [hr.generations, hr.owners]

/-- Laying classes out changes no owner. -/
theorem Relaid.ownerOf? {classes classes' : Classes} {refs : List ClassRef}
    (hr : Relaid classes refs classes') (r : ClassRef) :
    classes'.ownerOf? r = classes.ownerOf? r := by
  rw [Arena.ownerOf?, Arena.ownerOf?]
  cases he : classes.entry? r with
  | none => rw [hr.absent r he]
  | some e =>
      obtain ⟨layout, he', _⟩ := hr.present r e.1 e.2 he
      rw [he']
      rfl

/-- Every class that is there was there before. -/
theorem Relaid.before {classes classes' : Classes} {refs : List ClassRef}
    (hr : Relaid classes refs classes') {r : ClassRef} {owner : Nat} {c : Class}
    (he : classes'.entry? r = some (owner, c)) :
    ∃ c', classes.entry? r = some (owner, c') ∧ c = { c' with layout := c.layout } := by
  cases hold : classes.entry? r with
  | none =>
      rw [hr.absent r hold] at he
      cases he
  | some e =>
      obtain ⟨layout, he', _⟩ := hr.present r e.1 e.2 hold
      rw [he] at he'
      cases he'
      exact ⟨e.2, rfl, rfl⟩

/-- A class is laid out afterwards if it was before or is listed. -/
theorem Relaid.laidOut {classes classes' : Classes} {refs : List ClassRef}
    (hr : Relaid classes refs classes') {r : ClassRef} {owner owner' : Nat} {c c' : Class}
    (he : classes.entry? r = some (owner, c)) (hlaid : c.layout.isSome ∨ r ∈ refs)
    (he' : classes'.entry? r = some (owner', c')) : c'.layout.isSome := by
  obtain ⟨layout, hpresent, hsome, hsame⟩ := hr.present r owner c he
  rw [hpresent] at he'
  cases he'
  by_cases hmem : r ∈ refs
  · exact hsome hmem
  · rw [hsame hmem]
    exact hlaid.resolve_right hmem

/-- What was laid out stays laid out. -/
theorem Relaid.rooted {classes classes' : Classes} {refs : List ClassRef}
    (hr : Relaid classes refs classes') {r : ClassRef} (hrooted : Rooted classes r) :
    Rooted classes' r := by
  refine hrooted.mono (fun q => (hr.issued q).2) (fun q _ => hr.absent q) ?_
  intro q owner c he hlayout
  obtain ⟨layout, he', hsome, hsame⟩ := hr.present q owner c he
  refine Or.inr ⟨owner, _, he', ?_, rfl, rfl⟩
  by_cases hmem : q ∈ refs
  · exact hsome hmem
  · rw [hsame hmem]
    exact hlayout

/-- Laying out all classes of a climb makes them rooted. -/
theorem Climb.rooted {classes classes' : Classes} {refs : List ClassRef}
    (hr : Relaid classes refs classes')
    (hlaid : ∀ r owner c, classes.entry? r = some (owner, c) → c.layout.isSome → Rooted classes r)
    {cursor : Option ClassRef} {path : List ClassRef} (hclimb : Climb classes cursor path)
    (hpath : path ⊆ refs) {r : ClassRef} (hcursor : cursor = some r) : Rooted classes' r := by
  induction hclimb generalizing r with
  | top => cases hcursor
  | laid he hlayout =>
      cases hcursor
      exact hr.rooted (hlaid _ _ _ he hlayout)
  | step he _ hcompleted _ ih =>
      cases hcursor
      obtain ⟨layout, he', hsome, _⟩ := hr.present _ _ _ he
      refine .laid he' (hsome (hpath (by simp))) hcompleted fun p hp => ?_
      exact ih (fun q hq => hpath (by simp [hq])) hp

/-- Whatever is laid out on a way up is rooted. -/
theorem Climb.rooted_of_mem {classes classes' : Classes} {refs : List ClassRef}
    (hr : Relaid classes refs classes')
    (hlaid : ∀ r owner c, classes.entry? r = some (owner, c) → c.layout.isSome → Rooted classes r)
    {cursor : Option ClassRef} {path : List ClassRef} (hclimb : Climb classes cursor path)
    (hpath : path ⊆ refs) {r : ClassRef} (hmem : r ∈ path) : Rooted classes' r := by
  induction hclimb with
  | top => cases hmem
  | laid => cases hmem
  | step he hnone hcompleted hrest ih =>
      rcases List.mem_cons.1 hmem with rfl | hmem
      · exact (Climb.step he hnone hcompleted hrest).rooted hr hlaid hpath rfl
      · exact ih (fun q hq => hpath (by simp [hq])) hmem

end VaultKernel.Classes
