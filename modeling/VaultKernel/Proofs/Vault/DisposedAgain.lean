import VaultKernel.Proofs.Vault.Disposal

/-!
# Disposing a vault again

The report of a disposal is recorded before leaks are looked for, and nothing ever changes it
afterwards (`Reaches.remembers`). So `dispose_again` holds, which is the statement to read first:
once a vault was disposed, each further disposal changes nothing and returns the recorded report,
whatever happened in between. That is the outcome of the first one unless it found a leak. The
failure is not recorded; all that remains of it is the number of objects in the report.
-/

namespace VaultKernel

open Heap

namespace Vault

variable {v w : Vault} {report : DisposeReport}

/-! ## The recorded report -/

/-- A vault that has a report is not touched any more. -/
theorem dispose_of_disposed (h : v.disposed = some report) : Run.dispose v = .ok report v := by
  unfold Run.dispose
  rw [get_bind, h]
  rfl

/-- A report that is recorded stays. -/
def Remembers (v w : Vault) : Prop := ∀ report, v.disposed = some report → w.disposed = some report

/-- What stays in two steps stays. -/
theorem Remembers.trans {u v w : Vault} (huv : u.Remembers v) (hvw : v.Remembers w) :
    u.Remembers w := fun report h => hvw report (huv report h)

/-- A report stays if nothing is done to it. -/
theorem Remembers.of_eq (h : w.disposed = v.disposed) : v.Remembers w := fun _ hv => h.trans hv

/-- No operation takes a report back. -/
theorem Remembers.operate (v : Vault) (operation : Operation) :
    v.Remembers (operation.after v) := by
  rcases after_cases operation v with htends | ⟨registry, hafter⟩ | ⟨id, rfl⟩ | rfl
  · exact .of_eq htends.disposed
  · rw [hafter]
    exact .of_eq rfl
  · refine ends_iff.1 ?_
    unfold Run.disposeModule
    refine Ends.get ?_
    cases v.module? id with
    | none => exact Remembers.of_eq rfl
    | some m => exact Remembers.of_eq rfl
  · intro report h
    show (stateAfter (Run.dispose v)).disposed = some report
    rw [dispose_of_disposed h]
    exact h

/-- No change of a load touches the report. -/
theorem LoadStep.disposed (h : v.LoadStep w) : w.disposed = v.disposed := by
  cases h with
  | staged h => rw [h.rest]
  | _ => rfl

/-- The relation holds of the changes that loads make. -/
theorem Remembers.admits : Admits Remembers :=
  ⟨fun _ _ h => h, .trans, fun h => .of_eq h.disposed⟩

/-- A report stays whatever becomes of the vault. -/
theorem Reaches.remembers (h : v.Reaches w) (hs : v.Sound) : v.Remembers w := by
  induction h with
  | refl => exact .of_eq rfl
  | operate operation _ ih => exact (ih hs).trans (.operate _ operation)
  | load bytes hresolve hreaches ihresolve ih =>
      have hsafe : Resolver.Safe _ := fun name version u hu =>
        ends_iff.2 ((hresolve name version u).safe hu)
      have hsound := (hreaches.safe hs).sound
      exact (ih hs).trans (Remembers.admits.loadImage hsafe ihresolve hsound bytes)

/-! ## Further disposals -/

/-- Whatever is done with a disposed vault, disposing it changes nothing and returns the report. -/
theorem Sound.dispose_later (hs : v.Sound) (h : v.disposed = some report) (hreaches : v.Reaches w) :
    Run.dispose w = .ok report w := dispose_of_disposed (hreaches.remembers hs report h)

/-- The first disposal records how many objects are left, and fails if that is looked at and their
number is not one. -/
theorem Reachable.dispose_first (hv : v.Reachable) (hopen : v.disposed = none) : ∃ report w,
    w.disposed = some report ∧ report.aliveObjects = v.heap.immortals.length ∧
    Run.dispose v = if v.config.heap.checkLeaks ∧ v.heap.immortals.length ≠ 1 then
        .error (.heap (.leakDetected report.aliveObjects 1)) w
      else .ok report w := by
  have halive := hv.emptied.aliveObjects
  have hconfig := congrArg Vault.config hv.emptied.rest
  refine ⟨v.cleared.report, { v.cleared with disposed := some v.cleared.report }, rfl, halive, ?_⟩
  rw [dispose_eq hopen, ← halive, ← show v.cleared.config = v.config from hconfig]
  rfl

/-- A disposal leaves a report, and whatever is done with the vault afterwards, another disposal
changes nothing and returns this report. The disposal returns it as well, unless it is the first
one, leaks are looked for and the number of living immortal objects is not one: then it fails with
that number, which the report has as well. -/
theorem dispose_again (hv : v.Reachable) : ∃ report w,
    (Run.dispose v = if v.disposed = none ∧ v.config.heap.checkLeaks ∧
        v.heap.immortals.length ≠ 1 then
          .error (.heap (.leakDetected report.aliveObjects 1)) w
        else .ok report w) ∧
    (v.disposed = none → report.aliveObjects = v.heap.immortals.length) ∧
    ∀ w', w.Reaches w' → Run.dispose w' = .ok report w' := by
  cases hdisposed : v.disposed with
  | some report =>
      refine ⟨report, v, ?_, by simp, fun _ => hv.sound.dispose_later hdisposed⟩
      rw [dispose_of_disposed hdisposed, if_neg (by simp)]
  | none =>
      obtain ⟨report, w, hrecorded, halive, hfirst⟩ := hv.dispose_first hdisposed
      have hafter : stateAfter (Run.dispose v) = w := by
        rw [hfirst]
        split <;> rfl
      have hw : w.Sound := hafter ▸ (ends_iff.1 hv.sound.dispose).sound
      exact ⟨report, w, by simp [hfirst], fun _ => halive, fun _ => hw.dispose_later hrecorded⟩

/-- A vault with a collected object passes the check for leaks, once and forever. -/
theorem dispose_again_clean : ∃ (v w : Vault) (report : DisposeReport), v.Reachable ∧
    v.config.heap.checkLeaks ∧ v.heap.handles.length = 2 ∧ Run.dispose v = .ok report w ∧
    report.aliveObjects = 1 ∧ ∀ w', w.Reaches w' → Run.dispose w' = .ok report w' := by
  have hrun : (create { heap := { checkLeaks := true } } {}).toOption.any fun v₀ =>
      let v := (Operation.allocate CoreType.int32.ref).after v₀
      v.disposed.isNone && v.config.heap.checkLeaks && v.heap.handles.length = 2 &&
        v.heap.immortals.length = 1 := by
    decide +kernel
  obtain ⟨v₀, hcreated, hrun⟩ := (Option.any_eq_true _ _).1 hrun
  simp only [Bool.and_eq_true, decide_eq_true_eq, Option.isNone_iff_eq_none] at hrun
  obtain ⟨⟨⟨hopen, hcheck⟩, hhandles⟩, hcount⟩ := hrun
  have hv : Reachable _ := ⟨_, _, v₀, toOption_eq_some.1 hcreated,
    (Reaches.refl v₀).operate (.allocate CoreType.int32.ref)⟩
  obtain ⟨report, w, hfirst, halive, hagain⟩ := dispose_again hv
  rw [if_neg (by simp [hcount])] at hfirst
  exact ⟨_, w, report, hv, hcheck, hhandles, hfirst, (halive hopen).trans hcount, hagain⟩

/-- With another immortal object the first disposal fails and the second one does not. -/
theorem dispose_masks_leak : ∃ (v w : Vault) (report : DisposeReport), v.Reachable ∧
    Run.dispose v = .error (.heap (.leakDetected 2 1)) w ∧
    Run.dispose w = .ok report w ∧ report.aliveObjects = 2 := by
  have hrun : (create { heap := { checkLeaks := true } } {}).toOption.any fun v₀ =>
      let v := (Operation.allocateImmortal CoreType.int32.ref).after v₀
      v.disposed.isNone && v.config.heap.checkLeaks && v.heap.immortals.length = 2 := by
    decide +kernel
  obtain ⟨v₀, hcreated, hrun⟩ := (Option.any_eq_true _ _).1 hrun
  simp only [Bool.and_eq_true, decide_eq_true_eq, Option.isNone_iff_eq_none] at hrun
  obtain ⟨⟨hopen, hcheck⟩, hcount⟩ := hrun
  have hv : Reachable _ := ⟨_, _, v₀, toOption_eq_some.1 hcreated,
    (Reaches.refl v₀).operate (.allocateImmortal CoreType.int32.ref)⟩
  obtain ⟨report, w, hrecorded, halive, hfirst⟩ := hv.dispose_first hopen
  rw [hcount] at halive
  rw [hcount, if_pos ⟨hcheck, by decide⟩, halive] at hfirst
  exact ⟨_, w, report, hv, hfirst, dispose_of_disposed hrecorded, halive⟩

end Vault

end VaultKernel
