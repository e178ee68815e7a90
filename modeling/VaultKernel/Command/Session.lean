import VaultKernel.Failure.Basic

/-!
# Sessions

A command writes lines to the output and warnings beside it until it ends or fails; what it wrote
before a failure stays. A failure is reported after everything else and decides the exit code: that
of a fatal condition is its reason code, and that of any other failure is one.
-/

namespace VaultKernel

/-- Why a command failed. -/
inductive CommandError where
  | settingsMissing (path : String)
  | settingsUnreadable (error : FileError)
  | settingsInvalid (path : String)
  /-- An operation of the vault failed; `context` says what was being done. -/
  | failed (context : Option String) (failure : Failure)
  | unlinked (count : Nat)

namespace CommandError

/-- The wordings of an error and of what it rests on, outermost first. -/
def chain : CommandError → List String
  | .settingsMissing path => ["Config file " ++ path ++ " does not exist"]
  | .settingsUnreadable error => [error.message]
  | .settingsInvalid path => ["Failed to parse " ++ path, "invalid settings"]
  | .failed context failure => context.toList ++ failure.chain
  | .unlinked count => [Text.natural count ++ " extern method(s) could not be linked"]

/-- The exit code of an error. -/
def exitCode : CommandError → Nat
  | .failed _ failure => (failure.code?.map FatalCode.number).getD 1
  | _ => 1

end CommandError

/-- The lines written so far. -/
structure Transcript where
  output : List String := []
  diagnostics : List String := []
  deriving DecidableEq, Repr

/-- What a finished command leaves. -/
structure CommandResult where
  exitCode : Nat
  output : String
  diagnostics : String
  deriving DecidableEq, Repr

/-- A command that may write and may fail. -/
abbrev Session := EStateM CommandError Transcript

namespace Session

/-- Writes lines to the output. -/
def print (lines : List String) : Session Unit :=
  modify fun t => { t with output := t.output ++ lines }

/-- Writes a line beside the output. -/
def report (line : String) : Session Unit :=
  modify fun t => { t with diagnostics := t.diagnostics ++ [line] }

/-- Goes on with a result, or fails. -/
def answer {α : Type} : Except CommandError α → Session α
  | .ok a => return a
  | .error e => throw e

/-- Lines with their ends. -/
def textOf (lines : List String) : String := String.join (lines.map (· ++ "\n"))

/-- What a transcript amounts to. -/
def resultOf (exitCode : Nat) (t : Transcript) : CommandResult :=
  ⟨exitCode, textOf t.output, textOf t.diagnostics⟩

/-- Runs a command from the beginning. -/
def finish (session : Session Unit) : CommandResult :=
  match session {} with
  | .ok () t => resultOf 0 t
  | .error e t =>
    resultOf e.exitCode
      { t with diagnostics := t.diagnostics ++ ["error: " ++ Text.join ": " e.chain] }

end Session

end VaultKernel
