import VaultKernel.Proofs.Vault.Chronicle
import VaultKernel.Proofs.Vault.Layering

/-!
# Layouts at all times

At any time of a chronicle the layout of a class begins with the layout that its parent has, or had
when it was still there. Once a class is laid out it stays as it is until it goes. So a field has
one slot in a class and in all classes below it, whatever is loaded or disposed. The main statement
is `layouts_inherited`.
-/

namespace VaultKernel.Vault

open Relation Arena Classes

variable {v u w : Vault} {vaults past : List Vault} {r p a : ClassRef} {c d : Class} {l l' : Layout}

/-- A class as it is, laid out, in one of several vaults. -/
def Shown (vaults : List Vault) (r : ClassRef) (c : Class) (l : Layout) : Prop :=
  ∃ v ∈ vaults, v.class? r = some c ∧ c.layout = some l

/-- One class extends another one, in one of several vaults in which it is laid out. -/
def Extends (vaults : List Vault) (r p : ClassRef) : Prop :=
  ∃ c l, Shown vaults r c l ∧ c.parent = some p

/-- The layout of a class among vaults that follow each other: it numbers the names of the parent
and of the declared fields, and the names of all ancestors as they do. -/
structure Inherits (vaults : List Vault) (r : ClassRef) (c : Class) (l : Layout) : Prop where
  within : ∀ name i, l.offset? name = some i → i < l.size
  numbered : ∀ i, i < l.size → ∃! name, l.offset? name = some i
  parent : ∀ p, c.parent = some p → ∃! lp, ∃ cp, Shown vaults p cp lp
  names : ∀ name, (∃ i, l.offset? name = some i) ↔
    (∃ p cp lp, c.parent = some p ∧ Shown vaults p cp lp ∧ ∃ i, lp.offset? name = some i) ∨
      name ∈ c.fieldNames
  ancestors : ∀ a ca la, TransGen (Extends vaults) r a → Shown vaults a ca la →
    ∀ name i, la.offset? name = some i → l.offset? name = some i

/-- What was shown in some vaults was shown in more of them. -/
theorem Shown.mono {vaults' : List Vault} (h : Shown vaults r c l) (hsub : vaults ⊆ vaults') :
    Shown vaults' r c l := by
  obtain ⟨v, hv, hc⟩ := h
  exact ⟨v, hsub hv, hc⟩

/-! ## One layout at all times -/

/-- A class that was laid out is as it was. -/
theorem Chronicle.fixed (h : Chronicle (v :: past)) (hu : u ∈ v :: past)
    (hc : u.class? r = some c) (hlayout : c.layout.isSome) (hd : v.class? r = some d) : d = c := by
  obtain ⟨owner, he⟩ := get?_eq_some_iff.1 hc
  obtain ⟨owner', he'⟩ := get?_eq_some_iff.1 hd
  exact ((h.succeeds hu).2.kept r owner c owner' d he he').2.2 hlayout

/-- A class that is laid out is shown in one form only. -/
theorem Chronicle.shown_unique (h : Chronicle vaults) (hc : Shown vaults r c l)
    (hd : Shown vaults r d l') : c = d := by
  induction h with
  | created =>
      obtain ⟨u, hu, hc, _⟩ := hc
      obtain ⟨u', hu', hd, _⟩ := hd
      rw [List.mem_singleton.1 hu] at hc
      rw [List.mem_singleton.1 hu'] at hd
      exact Option.some.inj (hc.symm.trans hd)
  | @stepped v w past hstep hpast ih =>
      have hall := Chronicle.stepped hstep hpast
      obtain ⟨u, hu, hc, hl⟩ := hc
      obtain ⟨u', hu', hd, hl'⟩ := hd
      rcases List.mem_cons.1 hu with rfl | hpre
      · exact hall.fixed hu' hd (by simp [hl']) hc
      · rcases List.mem_cons.1 hu' with rfl | hpre'
        · exact (hall.fixed hu hc (by simp [hl]) hd).symm
        · exact ih ⟨u, hpre, hc, hl⟩ ⟨u', hpre', hd, hl'⟩

/-- A class has one layout at all times. -/
theorem Chronicle.layout_unique (h : Chronicle vaults) (hc : Shown vaults r c l)
    (hd : Shown vaults r d l') : l = l' := by
  obtain rfl := h.shown_unique hc hd
  obtain ⟨_, _, _, hl⟩ := hc
  obtain ⟨_, _, _, hl'⟩ := hd
  exact Option.some.inj (hl.symm.trans hl')

/-! ## Layouts of parents and other ancestors -/

/-- A layout was built on the one of the parent, whenever that was. -/
theorem Chronicle.builtOn (h : Chronicle vaults) (hc : Shown vaults r c l) :
    BuiltOn (fun p lp => ∃ cp, Shown vaults p cp lp) c l := by
  induction h with
  | @created _ _ v hcreated =>
      obtain ⟨u, hu, hc, hl⟩ := hc
      rw [List.mem_singleton.1 hu] at hc
      have hbuilt := (CoreType.install_spec (installed_create hcreated)).built
      refine (hbuilt.built r c l hc hl).mono ?_
      rintro p lp ⟨cp, hcp, hlp⟩
      exact ⟨cp, v, List.mem_singleton_self v, hcp, hlp⟩
  | @stepped v w past hstep hpast ih =>
      have hbefore : Shown (v :: past) r c l →
          BuiltOn (fun p lp => ∃ cp, Shown (w :: v :: past) p cp lp) c l := by
        intro hc
        refine (ih hc).mono ?_
        rintro p lp ⟨cp, hcp⟩
        exact ⟨cp, hcp.mono (List.subset_cons_self _ _)⟩
      obtain ⟨u, hu, hc, hl⟩ := hc
      rcases List.mem_cons.1 hu with rfl | hu
      · rcases (hstep.builds hpast.coherent).built r c l hc hl with hold | hnew
        · exact hbefore ⟨v, List.mem_cons_self, hold, hl⟩
        · refine hnew.mono ?_
          rintro p lp ⟨cp, hcp, hlp⟩
          exact ⟨cp, u, List.mem_cons_self, hcp, hlp⟩
      · exact hbefore ⟨u, hu, hc, hl⟩

/-- The layout of a class numbers each name once. -/
theorem Chronicle.nodup (h : Chronicle (v :: past)) (hc : Shown (v :: past) r c l) :
    l.names.Nodup := by
  obtain ⟨u, hu, hc, hl⟩ := hc
  exact (h.succeeds hu).1.proper r l ⟨c, hc, hl⟩

/-- The layout of the parent is where the layout of a class begins. -/
theorem Chronicle.parent_prefix (h : Chronicle vaults) (hextends : Extends vaults r p)
    (hc : Shown vaults r c l) (hp : Shown vaults p d l') : l'.names <+: l.names := by
  obtain ⟨c', _, hc', hparent⟩ := hextends
  obtain rfl := h.shown_unique hc hc'
  cases h.builtOn hc with
  | top hnone =>
      rw [hnone] at hparent
      cases hparent
  | @parent p' lp hp' hlp =>
      obtain ⟨cp, hcp⟩ := hlp
      cases hparent.symm.trans hp'
      rw [h.layout_unique hp hcp]
      exact Layout.names_extend _ _

/-- The layout of an ancestor is where the layout of a class begins. -/
theorem Chronicle.ancestor_prefix (h : Chronicle vaults) (habove : TransGen (Extends vaults) r a)
    (hc : Shown vaults r c l) (ha : Shown vaults a d l') : l'.names <+: l.names := by
  induction habove generalizing d l' with
  | single hextends => exact h.parent_prefix hextends hc ha
  | tail _ hextends ih =>
      have ⟨_, _, hb, _⟩ := hextends
      exact (h.parent_prefix hextends hb ha).trans (ih hb)

/-- The layout of a class inherits from those above it. -/
theorem Chronicle.inherits (h : Chronicle (v :: past)) (hc : Shown (v :: past) r c l) :
    Inherits (v :: past) r c l := by
  have hbuilt := h.builtOn hc
  refine ⟨fun name i => Layout.lt_size_of_offset?, fun i hi => ?_, fun p hp => ?_, fun name => ?_,
    fun a ca la habove ha name i => Layout.offset?_of_prefix (h.ancestor_prefix habove hc ha)⟩
  · obtain ⟨name, hname⟩ := Layout.exists_offset?_of_lt (h.nodup hc) hi
    exact ⟨name, hname, fun name' hname' => Layout.eq_of_offset? hname' hname⟩
  · cases hbuilt with
    | top hnone =>
        rw [hnone] at hp
        cases hp
    | @parent p' lp hp' hlp =>
        cases hp.symm.trans hp'
        obtain ⟨cp, hcp⟩ := hlp
        refine ⟨lp, ⟨cp, hcp⟩, ?_⟩
        rintro lp' ⟨cp', hcp'⟩
        exact h.layout_unique hcp' hcp
  · rw [Layout.exists_offset?_iff]
    cases hbuilt with
    | top hnone =>
        rw [Layout.mem_names_extend]
        simp [hnone]
    | @parent p lp hp hlp =>
        obtain ⟨cp, hcp⟩ := hlp
        rw [Layout.mem_names_extend]
        refine or_congr_left ⟨fun hname =>
          ⟨p, cp, lp, hp, hcp, Layout.exists_offset?_iff.2 hname⟩, ?_⟩
        rintro ⟨p', cp', lp', hp', hcp', hname⟩
        cases hp.symm.trans hp'
        rw [← h.layout_unique hcp' hcp]
        exact Layout.exists_offset?_iff.1 hname

/-- Every run has a chronicle, which every further operation goes on with. At all times of a
chronicle the layouts are as `Inherits` says, and a class that was laid out is as it was while it is
there. -/
theorem layouts_inherited :
    (∀ v, Reachable v → ∃ past, Chronicle (v :: past)) ∧
    (∀ v w past, Reachable v → Chronicle (v :: past) → v.Reaches w →
      ∃ earlier, Chronicle (w :: earlier) ∧ v :: past <:+ w :: earlier) ∧
    ∀ v past, Chronicle (v :: past) →
      (∀ r c l, v.class? r = some c → c.layout = some l → Inherits (v :: past) r c l) ∧
      ∀ u ∈ v :: past, ∀ r c d, u.class? r = some c → c.layout.isSome → v.class? r = some d →
        d = c := by
  refine ⟨fun v hv => hv.chronicle, fun v w past hv h hreaches => hv.chronicle_reaches h hreaches,
    fun v past h => ⟨fun r c l hc hl => ?_, fun u hu r c d hc hlayout hd => ?_⟩⟩
  · exact h.inherits ⟨v, List.mem_cons_self, hc, hl⟩
  · exact h.fixed hu hc hlayout hd

/-- A class declares the field of its parent once more and another one twice. The module of the
parent is disposed, and the class still has the slot of the parent before its own. -/
theorem layouts_inherited_orphan : ∃ (w : Vault) (earlier : List Vault) (c : Class),
    Chronicle (w :: earlier) ∧ w.class? ⟨23, 0⟩ = some c ∧ c.fieldNames = ["b", "a", "b"] ∧
      c.layout = some ⟨["a", "b"]⟩ ∧ c.parent = some ⟨24, 0⟩ ∧ w.class? ⟨24, 0⟩ = none ∧
      Inherits (w :: earlier) ⟨23, 0⟩ c ⟨["a", "b"]⟩ := by
  have hrun : (create {} {}).toOption.any fun v₀ =>
      ({ hollowImage "library" [] with
        typeNames := [⟨0, "library", "", "A"⟩]
        fieldNames := [⟨0, "a", "A"⟩]
        classes := [⟨0, 2, [], [], [⟨0, .type 0, 2⟩]⟩] } : ModuleImage).encode.toOption.any
          fun library =>
      ({ hollowImage "app" [⟨"library", "1.0"⟩] with
        typeNames := [⟨0, "app", "", "B"⟩, ⟨1, "library", "", "A"⟩]
        fieldNames := [⟨0, "b", "B"⟩, ⟨1, "a", "B"⟩]
        classes := [⟨0, 2, [1], [],
          [⟨0, .type 0, 2⟩, ⟨1, .type 0, 2⟩, ⟨0, .type 1, 2⟩]⟩] } : ModuleImage).encode.toOption.any
          fun app =>
        let w := (Operation.disposeModule 3).after
          (stateAfter (Searcher.load { images := [("library", library)] } app v₀))
        (w.class? ⟨24, 0⟩).isNone && (w.class? ⟨23, 0⟩).any fun c =>
          c.fieldNames = ["b", "a", "b"] && c.layout = some ⟨["a", "b"]⟩ &&
            c.parent = some ⟨24, 0⟩ := by
    decide +kernel
  obtain ⟨v₀, hcreated, hrun⟩ := (Option.any_eq_true _ _).1 hrun
  obtain ⟨library, _, hrun⟩ := (Option.any_eq_true _ _).1 hrun
  obtain ⟨app, _, hrun⟩ := (Option.any_eq_true _ _).1 hrun
  obtain ⟨hgone, hclass⟩ := (Bool.and_eq_true _ _).mp hrun
  obtain ⟨c, hc, hrun⟩ := (Option.any_eq_true _ _).1 hclass
  simp only [Bool.and_eq_true, decide_eq_true_eq] at hrun
  obtain ⟨⟨hfields, hlayout⟩, hparent⟩ := hrun
  obtain ⟨hcovered, _, hinherits⟩ := layouts_inherited
  obtain ⟨earlier, hw⟩ := hcovered _ ⟨_, _, v₀, toOption_eq_some.1 hcreated,
    (reaches_load { images := [("library", library)] } app v₀).operate (.disposeModule 3)⟩
  exact ⟨_, earlier, c, hw, hc, hfields, hlayout, hparent, Option.isNone_iff_eq_none.1 hgone,
    (hinherits _ _ hw).1 _ c _ hc hlayout⟩

end VaultKernel.Vault
