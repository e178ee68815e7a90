import VaultKernel.Command.Opening

/-!
# Checking a module

A check loads a module with its dependencies, verifies its entry point unless it is a library, warns
of native methods without code, and reports the heap after disposal. It fails if a warning was
given.
-/

namespace VaultKernel

/-- The own classes of a module that are there. -/
def Vault.ownClassesOf (v : Vault) (m : Module) : List Class := m.ownClasses.filterMap v.class?

/-- The warning about a method, if its native code is not available. -/
def Method.warning? (m : Method) (c : Class) : Option String :=
  match m.native with
  | some (.unavailable error) =>
    some (c.name.full ++ "." ++ m.signature ++ ": [" ++ error.code.text ++ "] " ++ error.message)
  | _ => none

namespace OpenModule

/-- The warnings about the native methods of the own classes. -/
def warnings (m : OpenModule) : List String :=
  match m.vault.module? m.module with
  | some module =>
    (m.vault.ownClassesOf module).flatMap fun c => c.methods.filterMap (·.warning? c)
  | none => []

/-- The lines that sum a module up. -/
def summary (m : OpenModule) : List String :=
  match m.vault.module? m.module with
  | some module =>
    ["Module:       " ++ module.name ++ "@" ++ module.version.text,
     "Classes:      " ++ Text.natural module.ownClasses.length,
     "Dependencies: " ++ Text.natural module.dependencies.length,
     "Aspects:      " ++ Text.natural module.aspects.length]
  | none => []

/-- Refuses a module without an entry point. -/
def requireEntry (m : OpenModule) : Except CommandError Unit :=
  match m.vault.entryPoint m.module with
  | .ok _ => .ok ()
  | .error failure =>
    .error (.failed (some "Module has no entry point (pass --lib for libraries)") failure)

/-- Checks a module. -/
def check (m : OpenModule) (isLibrary quiet : Bool) : Session Unit := do
  if !isLibrary then Session.answer m.requireEntry
  m.warnings.forM fun warning => Session.report ("warning: " ++ warning)
  if !quiet then Session.print m.summary
  let report ← Session.answer m.dispose
  if !quiet then Session.print ["Heap:         " ++ report.text]
  if !m.warnings.isEmpty then throw (.unlinked m.warnings.length)

end OpenModule

end VaultKernel
