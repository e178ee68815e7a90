import VaultKernel.Class.Hierarchy
import VaultKernel.Failure.Basic
import VaultKernel.Module

/-!
# Distributing aspects

The aspects of a module go to the classes, methods and fields that they are for. An aspect goes to
the first own class of the module with the name of its target, and there to the first method or
field that fits; an aspect that fits nothing stays with the module.
-/

namespace VaultKernel

/-- Changes the first element that satisfies `p`, if there is one. -/
def changeFirst? {α : Type} (p : α → Bool) (f : α → α) : List α → Option (List α)
  | [] => none
  | x :: rest => if p x then some (f x :: rest) else (changeFirst? p f rest).map (x :: ·)

namespace Class

/-- Attaches an aspect to a class or to the member that it is for; a class does not keep the same
aspect twice. -/
def attach? (c : Class) (aspect : Aspect) : Option Class :=
  match aspect.target with
  | .class _ =>
    some (if aspect ∈ c.aspects then c else { c with aspects := c.aspects ++ [aspect] })
  | .method _ method =>
    (changeFirst? (·.isCalled method) (fun m => { m with aspects := m.aspects ++ [aspect] })
      c.methods).map fun methods => { c with methods }
  | .field _ field =>
    (changeFirst? (·.name.name = field) (fun f => { f with aspects := f.aspects ++ [aspect] })
      c.fields).map fun fields => { c with fields }

end Class

namespace Module

/-- The first own class of a module with a name. -/
def ownNamed? (m : Module) (classes : Classes) (query : String) : Option ClassRef :=
  m.ownClasses.find? fun ref =>
    match classes.get? ref with
    | some c => c.name.isNamed query
    | none => false

/-- Attaches one aspect; an aspect that fits nothing is returned. -/
def attachOne (m : Module) (aspect : Aspect) : EStateM Failure Classes (Option Aspect) :=
  fun classes =>
    match m.ownNamed? classes aspect.target.className with
    | none => .ok (some aspect) classes
    | some ref =>
      match classes.get? ref with
      | none => .ok (some aspect) classes
      | some c =>
        if c.flags.unresolved then .error (.unresolvedClass c.name.full) classes
        else
          match c.attach? aspect with
          | some changed => .ok none (classes.modify ref fun _ => changed)
          | none => .ok (some aspect) classes

/-- Attaches aspects in order and returns those that fit nothing. -/
def attachAll (m : Module) : List Aspect → EStateM Failure Classes (List Aspect)
  | [] => return []
  | aspect :: rest => do
    let unattached ← m.attachOne aspect
    return unattached.toList ++ (← m.attachAll rest)

/-- Attaches the aspects of a module and leaves those without a target with it. -/
def distribute (m : Module) : EStateM Failure Classes Module := do
  return { m with aspects := ← m.attachAll m.aspects }

end Module

end VaultKernel
