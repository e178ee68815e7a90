import VaultKernel.Arena
import VaultKernel.Class.Basic
import VaultKernel.Failure.Fatal

/-!
# Class hierarchies

Walks along the parents of a class. `initLayout` gives a class and its ancestors their layouts,
ancestors first; `isAssignable` asks whether one class descends from another. A walk visits no class
twice unless the hierarchy has a cycle, so the number of classes bounds it.
-/

namespace VaultKernel

/-- The classes of a vault. -/
abbrev Classes := Arena Class

namespace Classes

/-- Follows the parents from `cursor` to the first class with a layout and returns the classes
before it, the last one in front, followed by `chain`. -/
def withoutLayout (classes : Classes) :
    (fuel : Nat) → (cursor : Option ClassRef) → (chain : List ClassRef) →
      Except Fatal (List ClassRef)
  | 0, _, chain => .ok chain
  | _ + 1, none, chain => .ok chain
  | fuel + 1, some ref, chain =>
    match classes.get? ref with
    | none => .error (.freedAncestor ref)
    | some c =>
      if c.layout.isSome then .ok chain
      else if !c.isCompleted then .error (.incompleteAncestor c.name.full)
      else if ref ∈ chain then .error (.inheritanceCycle c.name.full)
      else classes.withoutLayout fuel c.parent (ref :: chain)

/-- The layout of the parent of a class; a class without a parent starts empty. -/
def parentLayout (classes : Classes) (c : Class) : Layout :=
  ((c.parent.bind classes.get?).bind (·.layout)).getD {}

/-- Gives a class its layout from the layout of its parent. -/
def assignLayout (classes : Classes) (ref : ClassRef) : Classes :=
  match classes.get? ref with
  | some c =>
    let layout := (classes.parentLayout c).extend c.fieldNames
    classes.modify ref fun c => { c with layout := some layout }
  | none => classes

/-- A class and its ancestors that lack a layout, ancestors first. -/
def layoutChain (classes : Classes) (ref : ClassRef) : Except Fatal (List ClassRef) :=
  classes.withoutLayout (classes.slots.size + 2) (some ref) []

/-- Gives a class and the ancestors that lack one their layouts. -/
def initLayout (classes : Classes) (ref : ClassRef) : Except Fatal Classes := do
  return (← classes.layoutChain ref).foldl assignLayout classes

/-- Whether `target` is among the first `fuel` classes from `cursor` on. -/
def reaches (classes : Classes) (target : ClassRef) : (fuel : Nat) → Option ClassRef → Bool
  | 0, _ => false
  | _ + 1, none => false
  | fuel + 1, some ref =>
    ref = target || classes.reaches target fuel ((classes.get? ref).bind (·.parent))

/-- Whether `source` is `target` or descends from it. -/
def isAssignable (classes : Classes) (source target : ClassRef) : Bool :=
  classes.reaches target (classes.size + 1) (some source)

end Classes

end VaultKernel
