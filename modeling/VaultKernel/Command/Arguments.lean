import VaultKernel.Text.Split

/-!
# Command-line options

The general rules of options. A long option has two dashes and takes its value after an equals sign
or from the next argument; short options have one dash and a letter, several may share a dash, and
one with a value takes what follows the letter or the next argument. An argument that starts with a
dash is never a value, except for a dash alone, and a value is never empty. Two dashes alone end the
options.
-/

namespace VaultKernel

/-- An option that a command knows. -/
structure OptionRule where
  long : String
  short : Option Char := none
  takesValue : Bool := false
  /-- Whether the option may be given more than once. -/
  repeatable : Bool := false
  deriving DecidableEq, Repr

/-- An option as it was given: its long name and its value; a flag has the empty value. -/
structure GivenOption where
  name : String
  value : String := ""
  deriving DecidableEq, Repr

namespace OptionRule

/-- Whether an argument is an option, or the end of the options. -/
def isDashed (argument : String) : Bool := argument ≠ "-" && argument.toList.head? = some '-'

/-- The value of an option, which must not be empty. -/
def given? (rule : OptionRule) (value : List Char) : Option GivenOption :=
  if value.isEmpty then none else some ⟨rule.long, String.ofList value⟩

/-- The value after the letter of a short option, without an equals sign in front. -/
def attached : List Char → List Char
  | '=' :: value => value
  | value => value

/-- Reads letters that share a dash: the options, and the one that takes the next argument. -/
def letters? (rules : List OptionRule) : List Char → Option (List GivenOption × Option OptionRule)
  | [] => some ([], none)
  | c :: rest => do
    let rule ← rules.find? (·.short = some c)
    if rule.takesValue then
      if rest.isEmpty then return ([], some rule)
      else return ([← rule.given? (attached rest)], none)
    else
      let (more, pending) ← letters? rules rest
      return (⟨rule.long, ""⟩ :: more, pending)

/-- Reads a long option. -/
def long? (rules : List OptionRule) (text : List Char) :
    Option (List GivenOption × Option OptionRule) := do
  let (name, value) := match Text.splitFirst '=' text with
    | some (name, value) => (name, some value)
    | none => (text, none)
  let rule ← rules.find? (·.long = String.ofList name)
  match rule.takesValue, value with
  | true, some value => return ([← rule.given? value], none)
  | true, none => return ([], some rule)
  | false, some _ => none
  | false, none => return ([⟨rule.long, ""⟩], none)

/-- Reads one argument that is an option. -/
def argument? (rules : List OptionRule) (argument : String) :
    Option (List GivenOption × Option OptionRule) :=
  match argument.toList with
  | '-' :: '-' :: text => long? rules text
  | _ :: text => letters? rules text
  | [] => none

/-- Reads options up to an argument that is none. -/
def read? (rules : List OptionRule) : List String → Option (List GivenOption × List String)
  | [] => some ([], [])
  | argument :: rest =>
    if argument = "--" || !isDashed argument then some ([], argument :: rest)
    else do
      match ← argument? rules argument with
      | (given, none) =>
        let (more, rest) ← read? rules rest
        return (given ++ more, rest)
      | (given, some rule) =>
        match rest with
        | value :: rest =>
          if isDashed value then none
          else
            let option ← rule.given? value.toList
            let (more, rest) ← read? rules rest
            return (given ++ option :: more, rest)
        | [] => none

/-- Whether no option is given more often than it may be. -/
def allowed (rules : List OptionRule) (given : List GivenOption) : Bool :=
  rules.all fun rule => rule.repeatable || given.countP (·.name = rule.long) ≤ 1

end OptionRule

/-- Options and the only argument beside them. -/
structure Arguments where
  options : List GivenOption
  operand : String
  deriving DecidableEq, Repr

namespace Arguments

/-- Reads options around exactly one argument, which must not be empty. -/
def read? (rules : List OptionRule) (arguments : List String) : Option Arguments := do
  let (before, rest) ← OptionRule.read? rules arguments
  let (operand, after) ← match rest with
    | ["--", operand] => some (operand, [])
    | "--" :: _ => none
    | operand :: rest => do
      match ← OptionRule.read? rules rest with
      | (after, []) => some (operand, after)
      | (after, ["--"]) => some (operand, after)
      | _ => none
    | [] => none
  let options := before ++ after
  if operand.isEmpty || !OptionRule.allowed rules options then none else some ⟨options, operand⟩

/-- Whether a flag is given. -/
def has (a : Arguments) (name : String) : Bool := a.options.any (·.name = name)

/-- The values of an option in order. -/
def values (options : List GivenOption) (name : String) : List String :=
  (options.filter (·.name = name)).map (·.value)

end Arguments

end VaultKernel
