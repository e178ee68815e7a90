import VaultKernel.Text.Split

/-!
# Builtin functions

The functions that the runtime itself supplies to native methods. A builtin is found by a key that
spells its name and the short names of its argument types.
-/

namespace VaultKernel

/-- A function of the runtime. -/
inductive Builtin where
  /-- Writes a text and a line break. -/
  | printLine
  /-- Writes a text. -/
  | print
  /-- Joins two texts. -/
  | concat
  /-- Writes an integer as text. -/
  | integerText
  /-- Ends the process. -/
  | exit
  /-- Runs a collection and returns how many objects it removed. -/
  | collect
  /-- Returns how many objects are alive. -/
  | countAlive
  /-- Returns its first argument. -/
  | firstArgument
  deriving DecidableEq, Repr

namespace Builtin

/-- The key of a function with the given name and argument types. -/
def key (name : String) (argumentTypes : List String) : String :=
  name ++ "(" ++ Text.join "," argumentTypes ++ ")"

/-- The standard functions with their names and argument types. -/
def standard : List (String × List String × Builtin) :=
  [("@_println", ["String"], .printLine),
   ("@_print", ["String"], .print),
   ("@_concat", ["String", "String"], .concat),
   ("@_to_string", ["Int32"], .integerText),
   ("@_exit", ["Int32"], .exit),
   ("@_gc_collect", [], .collect),
   ("@_gc_alive", [], .countAlive)]

end Builtin

end VaultKernel
