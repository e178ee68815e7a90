import VaultKernel.Command.Arguments

/-!
# Invocations

What the command line can ask for: `check` loads a module and verifies that it links, and `inspect`
lists what it defines. The settings file may be named before the command or among its options, where
it counts if both name one.
-/

namespace VaultKernel

/-- What is to be done with a module. -/
inductive Action where
  /-- A library needs no entry point; a quiet check writes only errors and warnings. -/
  | check (isLibrary quiet : Bool)
  /-- Lists also the classes that are only mentioned if `all` is set. -/
  | inspect (all : Bool)
  deriving DecidableEq, Repr

/-- A request of the command line. -/
structure Invocation where
  action : Action
  /-- The path of the module. -/
  module : String
  /-- Further directories in which dependencies are looked for. -/
  searchPaths : List String := []
  /-- The settings file, if one is named. -/
  settings : Option String := none
  deriving DecidableEq, Repr

namespace Invocation

/-- Names the settings file. -/
def settingsRule : OptionRule := { long := "config", takesValue := true }

/-- Adds a directory in which dependencies are looked for. -/
def searchRule : OptionRule :=
  { long := "search-path", short := some 'L', takesValue := true, repeatable := true }

/-- The options of a check. -/
def checkRules : List OptionRule :=
  [settingsRule, searchRule, { long := "lib" }, { long := "quiet", short := some 'q' }]

/-- The options of a listing. -/
def inspectRules : List OptionRule := [settingsRule, searchRule, { long := "all" }]

/-- The request that the arguments of a command make, with the settings file named before it. -/
def ofArguments (settings : Option String) (a : Arguments) (action : Action) : Invocation where
  action := action
  module := a.operand
  searchPaths := Arguments.values a.options searchRule.long
  settings := (Arguments.values a.options settingsRule.long).head?.or settings

/-- The request that the arguments of the program make. -/
def read? (arguments : List String) : Option Invocation := do
  let (options, rest) ← OptionRule.read? [settingsRule] arguments
  if !OptionRule.allowed [settingsRule] options then none
  else
    let settings := (Arguments.values options settingsRule.long).head?
    match rest with
    | "check" :: rest =>
      let a ← Arguments.read? checkRules rest
      return ofArguments settings a (.check (a.has "lib") (a.has "quiet"))
    | "inspect" :: rest =>
      let a ← Arguments.read? inspectRules rest
      return ofArguments settings a (.inspect (a.has "all"))
    | _ => none

end Invocation

end VaultKernel
