/-!
# Flags

Classes, methods and fields carry sets of flags. On the wire a set is a word of 16 bits, of which
only the bits of known flags are kept. What a class still lacks while it is being loaded is kept
beside its declared flags and never read from the wire.
-/

namespace VaultKernel

/-- A kind of flag: its members, the bit of each, and the name of each. -/
class Flag (φ : Type) where
  /-- The flags in order of declaration. -/
  all : List φ
  /-- The bit of a flag. -/
  bit : φ → Nat
  /-- The name of a flag in listings. -/
  name : φ → String

/-- A set of flags as the number with their bits. -/
structure FlagSet (φ : Type) where
  bits : Nat
  deriving DecidableEq, Repr

namespace FlagSet

variable {φ : Type} [Flag φ]

/-- Whether a flag is in the set. -/
def has (s : FlagSet φ) (flag : φ) : Bool := s.bits.testBit (Flag.bit flag)

/-- The set of the given flags. -/
def ofList (flags : List φ) : FlagSet φ :=
  ⟨flags.foldl (fun n flag => n ||| Nat.pow 2 (Flag.bit flag)) 0⟩

/-- The flags of a word on the wire, without the bits that mean nothing. -/
def ofWire (raw : Int16) : FlagSet φ :=
  ⟨raw.toUInt16.toNat &&& (ofList (Flag.all : List φ)).bits⟩

/-- The names of the flags in the set, in order of declaration. -/
def names (s : FlagSet φ) : List String := ((Flag.all : List φ).filter s.has).map Flag.name

end FlagSet

/-- Flags of a class. -/
inductive ClassFlag where
  | openAccess | static | moduleAccess | familyAccess | ownAccess
  | abstract | special | interface | aspect
  deriving DecidableEq, Repr

/-- Flags of a method. -/
inductive MethodFlag where
  | openAccess | static | moduleAccess | familyAccess | ownAccess
  /-- Implemented by native code. -/
  | native
  | virtual | abstract | override | special
  deriving DecidableEq, Repr

/-- Flags of a field. -/
inductive FieldFlag where
  | literal | openAccess | static | familyAccess | virtual
  | abstract | override | special | readOnly | moduleAccess
  deriving DecidableEq, Repr

instance : Flag ClassFlag where
  all := [.openAccess, .static, .moduleAccess, .familyAccess, .ownAccess, .abstract, .special,
    .interface, .aspect]
  bit
    | .openAccess => 1 | .static => 2 | .moduleAccess => 3 | .familyAccess => 4 | .ownAccess => 5
    | .abstract => 6 | .special => 7 | .interface => 8 | .aspect => 9
  name
    | .openAccess => "PUBLIC" | .static => "STATIC" | .moduleAccess => "INTERNAL"
    | .familyAccess => "PROTECTED" | .ownAccess => "PRIVATE" | .abstract => "ABSTRACT"
    | .special => "SPECIAL" | .interface => "INTERFACE" | .aspect => "ASPECT"

instance : Flag MethodFlag where
  all := [.openAccess, .static, .moduleAccess, .familyAccess, .ownAccess, .native, .virtual,
    .abstract, .override, .special]
  bit
    | .openAccess => 0 | .static => 1 | .moduleAccess => 2 | .familyAccess => 3 | .ownAccess => 4
    | .native => 5 | .virtual => 6 | .abstract => 7 | .override => 8 | .special => 9
  name
    | .openAccess => "PUBLIC" | .static => "STATIC" | .moduleAccess => "INTERNAL"
    | .familyAccess => "PROTECTED" | .ownAccess => "PRIVATE" | .native => "EXTERN"
    | .virtual => "VIRTUAL" | .abstract => "ABSTRACT" | .override => "OVERRIDE"
    | .special => "SPECIAL"

instance : Flag FieldFlag where
  all := [.literal, .openAccess, .static, .familyAccess, .virtual, .abstract, .override, .special,
    .readOnly, .moduleAccess]
  bit
    | .literal => 1 | .openAccess => 2 | .static => 3 | .familyAccess => 4 | .virtual => 5
    | .abstract => 6 | .override => 7 | .special => 8 | .readOnly => 9 | .moduleAccess => 10
  name
    | .literal => "LITERAL" | .openAccess => "PUBLIC" | .static => "STATIC"
    | .familyAccess => "PROTECTED" | .virtual => "VIRTUAL" | .abstract => "ABSTRACT"
    | .override => "OVERRIDE" | .special => "SPECIAL" | .readOnly => "READONLY"
    | .moduleAccess => "INTERNAL"

/-- The declared flags of a class and what it still lacks. -/
structure ClassFlags where
  declared : FlagSet ClassFlag
  /-- The members of the class are not in place yet. -/
  notCompleted : Bool := false
  /-- The parent and the types of the members are not known yet. -/
  unresolved : Bool := false
  deriving DecidableEq, Repr

/-- All flags of a class as one number; what it lacks is above the declared bits. -/
def ClassFlags.bits (f : ClassFlags) : Nat :=
  f.declared.bits + (if f.notCompleted then 65536 else 0) + (if f.unresolved then 131072 else 0)

end VaultKernel
