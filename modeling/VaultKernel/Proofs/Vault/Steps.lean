import VaultKernel.Proofs.Outcome
import VaultKernel.Vault.Load

/-!
# Outcomes of single steps

The rules of `Ends` for the steps that operations on a vault are made of: questions, answers that do
not depend on the vault, and computations on a part of it.
-/

namespace VaultKernel

variable {v : Vault}

/-- An answer that does not depend on the vault leaves it alone. -/
theorem Ends.answer {α : Type} {x : Except Failure α} {Q : α → Vault → Prop} {E : Vault → Prop}
    (hok : ∀ a, x = .ok a → Q a v) (herror : E v) : Ends (Run.answer x v) Q E := by
  cases x with
  | ok a => exact hok a rfl
  | error e => exact herror

/-- A resolution leaves the vault alone. -/
theorem Ends.resolved {α : Type} {x : Except Unresolved α} {Q : α → Vault → Prop}
    {E : Vault → Prop} (hok : ∀ a, x = .ok a → Q a v) (herror : E v) :
    Ends (Run.resolved x v) Q E := by
  cases x with
  | ok a => exact hok a rfl
  | error e => exact herror

/-- A question leaves the vault alone. -/
theorem Ends.ask {α : Type} {question : Vault → Except Failure α} {Q : α → Vault → Prop}
    {E : Vault → Prop} (hok : ∀ a, question v = .ok a → Q a v) (herror : E v) :
    Ends (Run.ask question v) Q E := by
  unfold Run.ask
  cases h : question v with
  | ok a => exact hok a h
  | error e => exact herror

/-- An answer that succeeds is the one given, in the same vault. -/
theorem answer_eq_ok {α : Type} {x : Except Failure α} {a : α} {w : Vault}
    (h : Run.answer x v = .ok a w) : x = .ok a ∧ w = v := by
  cases x with
  | ok b =>
      cases h
      exact ⟨rfl, rfl⟩
  | error e => cases h

/-- An answer that fails is the failure given, in the same vault. -/
theorem answer_eq_error {α : Type} {x : Except Failure α} {e : Failure} {w : Vault}
    (h : Run.answer x v = .error e w) : x = .error e ∧ w = v := by
  cases x with
  | ok b => cases h
  | error e' =>
      cases h
      exact ⟨rfl, rfl⟩

/-- A question before a step that depends on its answer. -/
theorem Ends.askThen {α β : Type} {question : Vault → Except Failure α} {next : α → Run β}
    {Q : β → Vault → Prop} {E : Vault → Prop}
    (hnext : ∀ a, question v = .ok a → Ends (next a v) Q E) (herror : E v) :
    Ends ((Run.ask question >>= next) v) Q E := by
  refine Ends.bind (R := fun a v' => question v = .ok a ∧ v' = v)
    (Ends.ask (fun _ h => ⟨h, rfl⟩) herror) ?_
  rintro a _ ⟨ha, rfl⟩
  exact hnext a ha

/-- A question that succeeds does so of the vault at hand, and leaves it alone. -/
theorem ask_eq_ok {α : Type} {question : Vault → Except Failure α} {a : α} {w : Vault}
    (h : Run.ask question v = .ok a w) : question v = .ok a ∧ w = v := by
  unfold Run.ask at h
  split at h
  · next hanswer =>
      cases h
      exact ⟨hanswer, rfl⟩
  · cases h

/-- A question that fails does so of the vault at hand, and leaves it alone. -/
theorem ask_eq_error {α : Type} {question : Vault → Except Failure α} {e : Failure} {w : Vault}
    (h : Run.ask question v = .error e w) : question v = .error e ∧ w = v := by
  unfold Run.ask at h
  split at h
  · cases h
  · next hanswer =>
      cases h
      exact ⟨hanswer, rfl⟩

/-- A run that looks at the vault goes on with the vault at hand. -/
theorem get_bind {β : Type} {next : Vault → Run β} :
    ((get : Run Vault) >>= next) v = next v v := rfl

/-- A run goes on with the answer to its question. -/
theorem ask_bind {α β : Type} {question : Vault → Except Failure α} {next : α → Run β} {a : α}
    (h : question v = .ok a) : (Run.ask question >>= next) v = next a v := by
  show EStateM.bind (Run.ask question) next v = next a v
  simp only [EStateM.bind, Run.ask, h]

/-- A class is answered exactly when it is there. -/
theorem classOf_eq_ok {r : ClassRef} {c : Class} : v.classOf r = .ok c ↔ v.class? r = some c := by
  unfold Vault.classOf
  cases v.class? r <;> simp

/-- The vault is read before a step that depends on it. -/
theorem Ends.get {α : Type} {next : Vault → Run α} {Q : α → Vault → Prop} {E : Vault → Prop}
    (hnext : Ends (next v v) Q E) : Ends ((get >>= next) v) Q E := hnext

/-- Restating the failure of a run changes nothing about where it ends. -/
theorem Ends.mapFailure {α : Type} {run : Run α} {f : Failure → Failure} {Q : α → Vault → Prop}
    {E : Vault → Prop} (hrun : Ends (run v) Q E) : Ends (Run.mapFailure f run v) Q E := by
  unfold Run.mapFailure
  cases h : run v with
  | ok a v' =>
      rw [h] at hrun
      exact hrun
  | error e v' =>
      rw [h] at hrun
      exact hrun

/-- An edit of the classes ends as it does on the classes alone. -/
theorem Ends.onClasses {α : Type} {edit : EStateM Failure Classes α} {Q : α → Vault → Prop}
    {E : Vault → Prop} (hedit : Ends (edit v.classes)
      (fun a classes => Q a { v with classes }) fun classes => E { v with classes }) :
    Ends (Run.onClasses edit v) Q E := by
  unfold Run.onClasses
  cases h : edit v.classes with
  | ok a classes =>
      rw [h] at hedit
      exact hedit
  | error e classes =>
      rw [h] at hedit
      exact hedit

/-- A use of the registry ends as it does on the registry alone. -/
theorem Ends.onRegistry {α : Type} {linker : EStateM Failure NativeRegistry α}
    {Q : α → Vault → Prop} {E : Vault → Prop} (hlinker : Ends (linker v.registry)
      (fun a registry => Q a { v with registry }) fun registry => E { v with registry }) :
    Ends (Run.onRegistry linker v) Q E := by
  unfold Run.onRegistry
  cases h : linker v.registry with
  | ok a registry =>
      rw [h] at hlinker
      exact hlinker
  | error e registry =>
      rw [h] at hlinker
      exact hlinker

end VaultKernel
