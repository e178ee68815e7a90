import VaultKernel.Failure.Fatal
import VaultKernel.Failure.Fault
import VaultKernel.Failure.Unresolved
import VaultKernel.File.Error

/-!
# Failures

Everything that can go wrong in a vault: a fatal condition, a name that nothing defines, a
dependency that cannot be supplied, a fault of the running program, or trouble with the heap or a
file. A number that does not fit in its word stops the process; that stop is a failure here too,
which no operation turns into anything else.
-/

namespace VaultKernel

/-- Why an operation of a vault failed. -/
inductive Failure where
  | fatal (cause : Fatal)
  | unresolved (what : Unresolved)
  /-- The dependency `name` in `version` of `module` cannot be supplied. -/
  | dependencyNotFound (name : String) (version : Version) (module : String) (reason : Failure)
  /-- The module `name` is asked for while it is being loaded. -/
  | dependencyCycle (name : String)
  /-- An aspect is for a class whose types are not known yet. -/
  | unresolvedClass (className : String)
  | fault (what : Fault)
  | heap (error : HeapError)
  | file (error : FileError)
  /-- A number or a vector is larger than the machine has room for. No caller sees this: the process
  stops here. -/
  | overflow

namespace Failure

/-- The name of the kind of a failure. -/
def name : Failure → String
  | .fatal _ => "Fatal"
  | .unresolved what => what.name
  | .dependencyNotFound _ _ _ _ => "DependencyNotFound"
  | .dependencyCycle _ => "DependencyCycle"
  | .unresolvedClass _ => "UnresolvedClass"
  | .fault _ => "Fault"
  | .heap _ => "Gc"
  | .file _ => "Io"
  | .overflow => "Overflow"

/-- The wording of a failure. -/
def message : Failure → String
  | .fatal cause => "[" ++ cause.code.text ++ "] " ++ cause.message
  | .unresolved (.malformed className error) =>
    "[" ++ FatalCode.typeLoad.text ++ "] " ++ (Unresolved.malformed className error).message
  | .unresolved what => what.message
  | .dependencyNotFound name version module reason =>
    "Dependency '" ++ name ++ "@" ++ version.text ++ "' of module '" ++ module ++ "' not found: "
      ++ reason.message
  | .dependencyCycle name => "Dependency cycle detected while loading '" ++ name ++ "'"
  | .unresolvedClass className => "Class '" ++ className ++ "' is unresolved"
  | .fault what => what.kind.text ++ ": " ++ what.message
  | .heap error => error.message
  | .file error => "IO error: " ++ error.message
  | .overflow => "A number does not fit in its word"

/-- The reason code of a failure that ends the process. -/
def code? : Failure → Option FatalCode
  | .fatal cause => some cause.code
  | .unresolved (.malformed _ _) => some .typeLoad
  | .heap (.outOfMemory _ _ _) => some .outOfMemory
  | _ => none

/-- Whether a failure means that the types of a module are unusable. -/
def isTypeLoad : Failure → Bool
  | .fatal cause => cause.code = .typeLoad
  | .unresolved _ | .dependencyNotFound _ _ _ _ | .dependencyCycle _ | .unresolvedClass _ => true
  | .fault _ | .heap _ | .file _ | .overflow => false

/-- The wordings of a failure and of what it rests on, outermost first. -/
def chain : Failure → List String
  | .file error => [(Failure.file error).message, error.message]
  | failure => [failure.message]

end Failure

/-- Reads the version of a module; any other text is fatal. -/
def Version.read (text : String) : Except Failure Version :=
  match Version.parse text with
  | .ok version => .ok version
  | .error problem => .error (.fatal (.invalidVersion text problem))

end VaultKernel
