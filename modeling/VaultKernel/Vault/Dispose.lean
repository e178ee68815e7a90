import VaultKernel.Vault.Load

/-!
# Disposal

Disposing a module removes its classes and the collected objects of these classes. Disposing a vault
removes its modules, the newest first, then all collected objects and all frames, and leaves a
report; disposing it again returns the same report.
-/

namespace VaultKernel

namespace Vault

/-- The number of objects that may outlive their vault: the sentinel. -/
def sentinelCount : Nat := 1

/-- The vault without modules, collected objects and frames. -/
def cleared (v : Vault) : Vault :=
  let v := v.modules.foldr (fun m v => v.release m.id) { v with modules := #[] }
  { v with
    heap := v.heap.freeMortals.2
    frames := (v.frames.removeOwner Frame.owner).2
    systemFrames := [] }

/-- The heap counters of a vault that is being disposed. -/
def report (v : Vault) : DisposeReport :=
  { aliveObjects := v.heap.stats.aliveObjects
    aliveBytes := v.heap.stats.aliveBytes
    bytesRequested := v.heap.stats.bytesRequested }

end Vault

namespace Run

/-- Disposes a loaded module. -/
def disposeModule (id : ModuleId) : Run Unit := do
  let v ← get
  match v.module? id with
  | none => fatal (.moduleNotLoaded id)
  | some _ => set ({ v with modules := v.modules.filter (·.id ≠ id) }.release id)

/-- Disposes the vault. -/
def dispose : Run DisposeReport := do
  let v ← get
  match v.disposed with
  | some report => return report
  | none =>
    let v := v.cleared
    set { v with disposed := some v.report }
    if v.config.heap.checkLeaks then
      match v.heap.checkAlive Vault.sentinelCount with
      | .ok () => return v.report
      | .error e => throw (.heap e)
    else return v.report

end Run

end VaultKernel
