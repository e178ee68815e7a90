import Mathlib.Data.List.Infix
import VaultKernel.Class.Predefined
import VaultKernel.Proofs.Arena.Bookkeeping
import VaultKernel.Proofs.Class.Hierarchy
import VaultKernel.Proofs.Outcome

/-!
# Ancestors of classes

A class descends from another one if parents lead from it to the other one. The walk that answers
this gives up after as many classes as there are; until it meets the class in question it passes no
class twice (`Ascent.nodup`), even if the hierarchy has a cycle. So it never gives up too early
where the classes are counted exactly (`Traced.isAssignable_iff`).
-/

namespace VaultKernel.Classes

open Relation Arena

variable {classes : Classes} {target r a : ClassRef} {path : List ClassRef}

/-- The classes from one on that come before the first occurrence of the target. -/
inductive Ascent (classes : Classes) (target : ClassRef) : ClassRef → List ClassRef → Prop where
  | here : Ascent classes target target []
  | up {r p : ClassRef} {path : List ClassRef} : r ≠ target → Parent classes r p →
      Ascent classes target p path → Ascent classes target r (r :: path)

/-- A class has one parent at most. -/
theorem Parent.unique {p p' : ClassRef} (h : Parent classes r p) (h' : Parent classes r p') :
    p = p' := by
  obtain ⟨c, hc, hp⟩ := h
  obtain ⟨c', hc', hp'⟩ := h'
  cases hc.symm.trans hc'
  exact Option.some.inj (hp.symm.trans hp')

namespace Ascent

/-- There is one way up from a class to its first meeting with the target. -/
theorem unique {path' : List ClassRef} (h : Ascent classes target r path)
    (h' : Ascent classes target r path') : path = path' := by
  induction h generalizing path' with
  | here =>
      cases h' with
      | here => rfl
      | up hne => exact absurd rfl hne
  | up hne hparent _ ih =>
      cases h' with
      | here => exact absurd rfl hne
      | up _ hparent' hrest =>
          cases hparent.unique hparent'
          rw [ih hrest]

/-- From each class on, the rest of an ascent is an ascent. -/
theorem exists_suffix (h : Ascent classes target r path) (ha : a ∈ path) :
    ∃ rest, Ascent classes target a rest ∧ rest <:+ path := by
  induction h with
  | here => cases ha
  | up hne hparent hrest ih =>
      rcases List.mem_cons.1 ha with rfl | ha
      · exact ⟨_, .up hne hparent hrest, List.suffix_refl _⟩
      · obtain ⟨rest, hascent, hsuffix⟩ := ih ha
        exact ⟨rest, hascent, hsuffix.trans (List.suffix_cons _ _)⟩

/-- No class is passed twice, because a shorter ascent would go on from it the second time. -/
theorem nodup (h : Ascent classes target r path) : path.Nodup := by
  induction h with
  | here => exact List.nodup_nil
  | up hne hparent hrest ih =>
      refine List.nodup_cons.2 ⟨fun ha => ?_, ih⟩
      obtain ⟨shorter, hascent, hsuffix⟩ := hrest.exists_suffix ha
      have hle := hsuffix.length_le
      rw [hascent.unique (.up hne hparent hrest), List.length_cons] at hle
      omega

/-- The classes on the way are there. -/
theorem contains (h : Ascent classes target r path) : ∀ a ∈ path, classes.contains a := by
  induction h with
  | here => simp
  | up _ hparent _ ih =>
      obtain ⟨c, hc, _⟩ := hparent
      obtain ⟨owner, he⟩ := get?_eq_some_iff.1 hc
      exact List.forall_mem_cons.2 ⟨contains_iff.2 ⟨_, he⟩, ih⟩

/-- The walk meets the target if it may pass all the classes before it. -/
theorem reaches (h : Ascent classes target r path) {fuel : Nat} (hfuel : path.length < fuel) :
    classes.reaches target fuel (some r) := by
  induction h generalizing fuel with
  | here =>
      cases fuel with
      | zero => cases hfuel
      | succ fuel => simp [Classes.reaches]
  | @up r p path _ hparent _ ih =>
      cases fuel with
      | zero => cases hfuel
      | succ fuel =>
          obtain ⟨c, hc, hp⟩ := hparent
          have hnext : (classes.get? r).bind (·.parent) = some p := by rw [hc, Option.bind_some, hp]
          rw [Classes.reaches, hnext, ih (Nat.lt_of_succ_lt_succ hfuel), Bool.or_true]

end Ascent

/-- An ancestor is met on the way up. -/
theorem exists_ascent (h : ReflTransGen (Parent classes) r target) :
    ∃ path, Ascent classes target r path := by
  induction h using ReflTransGen.head_induction_on with
  | refl => exact ⟨[], .here⟩
  | @head r p hparent _ ih =>
      by_cases hr : r = target
      · exact ⟨[], hr ▸ .here⟩
      · obtain ⟨path, hascent⟩ := ih
        exact ⟨r :: path, .up hr hparent hascent⟩

/-- Only ancestors are met on the way up. -/
theorem ancestor_of_reaches {fuel : Nat} (h : classes.reaches target fuel (some r)) :
    ReflTransGen (Parent classes) r target := by
  induction fuel generalizing r with
  | zero => cases h
  | succ fuel ih =>
      rw [reaches, Bool.or_eq_true, decide_eq_true_eq] at h
      rcases h with rfl | h
      · exact .refl
      · cases hnext : (classes.get? r).bind (·.parent) with
        | none =>
            rw [hnext] at h
            cases fuel <;> cases h
        | some p =>
            rw [hnext] at h
            obtain ⟨c, hc, hp⟩ := Option.bind_eq_some_iff.1 hnext
            exact .head ⟨c, hc, hp⟩ (ih h)

/-! ## Classes that are counted exactly -/

/-- The classes are what operations on an arena made of an empty one. -/
def Traced (classes : Classes) : Prop := ∃ log, classes.Logged log

/-- A walk that may visit one class more than are living finds every ancestor and nothing else. -/
theorem reaches_iff_of_size_lt {log : HandleLog (Nat × Class)} {fuel : Nat}
    (hlog : classes.Logged log) (hfuel : classes.size < fuel) :
    classes.reaches target fuel (some r) ↔ ReflTransGen (Parent classes) r target := by
  refine ⟨ancestor_of_reaches, fun habove => ?_⟩
  obtain ⟨path, hascent⟩ := exists_ascent habove
  have hlength : path.length ≤ classes.size :=
    hlog.counted.length_le_size hascent.nodup hascent.contains
  exact hascent.reaches (Nat.lt_of_le_of_lt hlength hfuel)

/-- The walk answers whether one class descends from another. -/
theorem Traced.isAssignable_iff (h : Traced classes) :
    classes.isAssignable r target ↔ ReflTransGen (Parent classes) r target :=
  have ⟨_, hlog⟩ := h
  reaches_iff_of_size_lt hlog (Nat.lt_succ_self _)

/-- Laying a class out keeps what is logged. -/
theorem Traced.assignLayout (h : Traced classes) (r : ClassRef) :
    Traced (classes.assignLayout r) := by
  obtain ⟨log, hlog⟩ := h
  unfold Classes.assignLayout
  cases classes.get? r with
  | none => exact ⟨log, hlog⟩
  | some c => exact ⟨_, hlog.changed r _⟩

/-- Laying classes out keeps what is logged. -/
theorem Traced.assignLayouts (h : Traced classes) (chain : List ClassRef) :
    Traced (chain.foldl Classes.assignLayout classes) :=
  List.foldlRecOn (motive := Traced) chain _ h fun _ hclasses r _ => hclasses.assignLayout r

/-- The predefined classes come about through operations of an arena. -/
theorem traced_install {tokens : TokenCounter} {state : TokenCounter × Classes}
    (h : CoreType.install tokens = .ok state) : Traced state.2 := by
  obtain ⟨defined, hdefined, hrest⟩ := bind_eq_ok.1 h
  obtain ⟨classes, hclasses, hdone⟩ := bind_eq_ok.1 hrest
  cases pure_eq_ok.1 hdone
  have hstored : Traced defined.2 := by
    refine of_foldlM_eq_ok (P := fun state : TokenCounter × Classes => Traced state.2)
      (fun state state' t hstate hnext => ?_) ⟨[], .start⟩ hdefined
    obtain ⟨log, hlog⟩ := hstate
    unfold CoreType.define at hnext
    split at hnext <;> cases hnext
    exact ⟨_, hlog.stored _ _⟩
  refine of_foldlM_eq_ok (P := Traced) (fun _ _ t htraced hnext => ?_) hstored hclasses
  obtain ⟨chain, _, hlaid⟩ := bind_eq_ok.1 hnext
  cases pure_eq_ok.1 hlaid
  exact htraced.assignLayouts chain

end VaultKernel.Classes
