import VaultKernel.Command.Check
import VaultKernel.Command.Inspect

/-!
# Execution of the command line

`CommandResult.of` is the whole program: what the arguments, the files and the native libraries lead
to. Arguments that make no request end it with code two.
-/

namespace VaultKernel

/-- Does what a request asks for. -/
def Invocation.session (i : Invocation) (files : FileTree) (loader : LibraryLoader) :
    Session Unit := do
  let m ← Session.answer (i.load files loader)
  match i.action with
  | .check isLibrary quiet => m.check isLibrary quiet
  | .inspect all => m.inspect all

/-- The result of arguments that make no request. -/
def CommandResult.usage : CommandResult := ⟨2, "", "error: invalid arguments\n"⟩

/-- The result of the program. -/
def CommandResult.of (arguments : List String) (files : FileTree) (loader : LibraryLoader) :
    CommandResult :=
  match Invocation.read? arguments with
  | some i => (i.session files loader).finish
  | none => .usage

end VaultKernel
