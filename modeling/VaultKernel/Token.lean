import VaultKernel.Text.Numeral

/-!
# Runtime tokens

A class is identified within a process by the number of its module and its own number. Both are
words of 16 bits that are handed out in increasing order from one, and a number is never handed out
twice: when a counter has reached its limit, every further request is refused.
-/

namespace VaultKernel

/-- The number of a module. -/
abbrev ModuleId := UInt16

/-- The pair of numbers that identifies a class. -/
structure Token where
  moduleId : ModuleId
  classId : UInt16
  deriving DecidableEq, Repr

namespace Token

/-- The token that no class has. -/
def unset : Token := ⟨0, 0⟩

/-- Whether a token was handed out. -/
def isSet (t : Token) : Bool := t ≠ unset

/-- The form in diagnostics. -/
def text (t : Token) : String :=
  "Token(" ++ Text.natural t.moduleId.toNat ++ ":" ++ Text.natural t.classId.toNat ++ ")"

end Token

/-- The numbers handed out last; zero before the first. -/
structure TokenCounter where
  lastModule : UInt16 := 0
  lastClass : UInt16 := 0
  deriving DecidableEq, Repr

namespace TokenCounter

/-- The number after `last`, unless `last` is the greatest there is. -/
def following? (last : UInt16) : Option UInt16 := if last = 65535 then none else some (last + 1)

/-- The next module number and the counter after it. -/
def nextModule? (c : TokenCounter) : Option (ModuleId × TokenCounter) :=
  (following? c.lastModule).map fun id => (id, { c with lastModule := id })

/-- The next class number and the counter after it. -/
def nextClass? (c : TokenCounter) : Option (UInt16 × TokenCounter) :=
  (following? c.lastClass).map fun id => (id, { c with lastClass := id })

end TokenCounter

end VaultKernel
