import VaultKernel.Text.Numeral

/-!
# Handles

A handle names an entry of a store by its slot and the generation of the slot. The generation moves
on when the entry is removed, so an old handle does not reach what is stored in the slot later.
-/

namespace VaultKernel

/-- A slot and its generation. -/
structure Handle where
  /-- The number of the slot; no store gives out one of more than 32 bits. -/
  index : Nat
  generation : UInt32
  deriving DecidableEq, Repr

namespace Handle

/-- Slot and generation. -/
def text (h : Handle) : String :=
  Text.natural h.index ++ "v" ++ Text.natural h.generation.toNat

/-- The form of an object handle in diagnostics. -/
def objectText (h : Handle) : String := "GcRef(" ++ h.text ++ ")"

/-- The form of a class or frame handle in diagnostics. -/
def entryText (h : Handle) : String := "Handle(" ++ h.text ++ ")"

end Handle

/-- The handle of an object on the heap. -/
abbrev ObjectRef := Handle

/-- The handle of a class. -/
abbrev ClassRef := Handle

/-- The handle of a call frame. -/
abbrev FrameRef := Handle

/-- A method by its class and its place among the methods of the class. -/
structure MethodRef where
  owner : ClassRef
  index : Nat
  deriving DecidableEq, Repr

/-- The form of a method reference in diagnostics. -/
def MethodRef.text (m : MethodRef) : String :=
  "MethodRef \x7b class: " ++ m.owner.entryText ++ ", index: " ++ Text.natural m.index ++ " \x7d"

end VaultKernel
