import VaultKernel.Proofs.Class.Ancestry
import VaultKernel.Vault.Basic

/-!
# How far assignability looks

Whether a class is assignable to another one is decided by a walk from parent to parent that gives
up after as many classes as are living. The handle that it ends with may be that of a class that was
removed, which is one more than the living ones; before it no class is met twice. So whatever was
done to the classes, also if their parents go round in a circle, the walk finds exactly the
ancestors, and would find no others if it went on for longer. The main statement is
`isAssignable_exact`.
-/

namespace VaultKernel.Vault

open Relation Arena Classes

variable {v : Vault} {log : HandleLog (Nat × Class)}

/-- After every sequence of operations on the classes, a class is assignable to another one exactly
if parents of living classes lead from it to the other one in zero or more steps, and every longer
walk gives the same answer. -/
theorem isAssignable_exact (hlog : Logged v.classes log) (source target : ClassRef) :
    (v.isAssignable source target ↔ ReflTransGen (Parent v.classes) source target) ∧
      ∀ cutoff, v.classes.size ≤ cutoff →
        v.classes.reaches target (cutoff + 1) (some source) = v.isAssignable source target := by
  have hexact : v.isAssignable source target ↔ ReflTransGen (Parent v.classes) source target :=
    reaches_iff_of_size_lt hlog (Nat.lt_succ_self _)
  refine ⟨hexact, fun cutoff hcutoff => Bool.eq_iff_iff.2 ?_⟩
  rw [hexact]
  exact reaches_iff_of_size_lt hlog (Nat.lt_succ_of_le hcutoff)

/-- Classes with these parents in the slots from the first one on. -/
def rowOf (parents : List (Option ClassRef)) : Classes :=
  parents.foldl (fun classes parent => (classes.allocate 2
    { name := .ofParts "app" "app" "Bare", parent, flags := { declared := .ofList [] }
      token := ⟨2, 0⟩, owner := 2 }).2) {}

/-- Classes in a row come about through operations of an arena, and so does one removal. -/
theorem traced_remove_rowOf (parents : List (Option ClassRef)) (r : ClassRef) :
    Traced ((rowOf parents).remove r).2 := by
  obtain ⟨log, hlog⟩ : Traced (rowOf parents) :=
    List.foldlRecOn (motive := Traced) parents _ ⟨[], .start⟩
      fun _ ⟨_, hlog⟩ _ _ => ⟨_, hlog.stored 2 _⟩
  by_cases hlive : (rowOf parents).contains r
  · exact ⟨_, hlog.freed r hlive⟩
  · exact ⟨_, hlog.stale r hlive⟩

/-- Two classes are each other's parents. Of the three others, which are in a row, the last one was
removed. -/
theorem isAssignable_exact_cycle : ∃ (v : Vault) (log : HandleLog (Nat × Class)),
    Logged v.classes log ∧ ¬ v.classes.contains ⟨4, 0⟩ ∧
      (v.isAssignable ⟨0, 0⟩ ⟨1, 0⟩ ∧ v.isAssignable ⟨1, 0⟩ ⟨0, 0⟩) ∧
      ReflTransGen (Parent v.classes) ⟨2, 0⟩ ⟨4, 0⟩ ∧
      ¬ ReflTransGen (Parent v.classes) ⟨0, 0⟩ ⟨2, 0⟩ ∧
      ∀ cutoff, v.classes.size ≤ cutoff →
        ¬ v.classes.reaches ⟨2, 0⟩ (cutoff + 1) (some ⟨0, 0⟩) := by
  have hrun : (create {} {}).toOption.any fun v₀ =>
      let row := rowOf [some ⟨1, 0⟩, some ⟨0, 0⟩, some ⟨3, 0⟩, some ⟨4, 0⟩, none]
      let v : Vault := { v₀ with classes := (row.remove ⟨4, 0⟩).2 }
      !v.classes.contains ⟨4, 0⟩ && v.isAssignable ⟨0, 0⟩ ⟨1, 0⟩ &&
        v.isAssignable ⟨1, 0⟩ ⟨0, 0⟩ && v.isAssignable ⟨2, 0⟩ ⟨4, 0⟩ &&
        !v.isAssignable ⟨0, 0⟩ ⟨2, 0⟩ := by
    decide +kernel
  obtain ⟨v₀, _, hrun⟩ := (Option.any_eq_true _ _).1 hrun
  simp only [Bool.and_eq_true, Bool.not_eq_true'] at hrun
  have htraced := traced_remove_rowOf [some ⟨1, 0⟩, some ⟨0, 0⟩, some ⟨3, 0⟩, some ⟨4, 0⟩, none]
    ⟨4, 0⟩
  generalize (rowOf _).remove ⟨4, 0⟩ = removed at hrun htraced
  obtain ⟨log, hlog⟩ := htraced
  obtain ⟨⟨⟨⟨hgone, hdown⟩, hup⟩, hlast⟩, hapart⟩ := hrun
  have hrow := isAssignable_exact (v := { v₀ with classes := removed.2 }) hlog
  obtain ⟨hiff, hlonger⟩ := hrow ⟨0, 0⟩ ⟨2, 0⟩
  refine ⟨_, log, hlog, by simpa using hgone, ⟨hdown, hup⟩, (hrow _ _).1.1 hlast, fun habove => ?_,
    fun cutoff hcutoff hreaches => ?_⟩
  · rw [hiff.2 habove] at hapart
    cases hapart
  · rw [hlonger cutoff hcutoff, hapart] at hreaches
    cases hreaches

end VaultKernel.Vault
