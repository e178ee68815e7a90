import VaultKernel.Heap.Basic

/-!
# Collection

A collection marks what can be reached from the given roots and from the immortal objects and
removes the rest. Marking keeps a stack of gray objects; an object is put on it only while it is
white, so each slot passes over the stack at most once. Afterwards every surviving object is white
again.
-/

namespace VaultKernel.Heap

variable {α : Type} [Traceable α]

omit [Traceable α] in
/-- The mark of the object behind a handle. -/
def mark? (h : Heap α) (r : ObjectRef) : Option Mark := (h.header? r).map (·.mark)

omit [Traceable α] in
/-- Makes a white object gray and puts it on the stack. -/
def shade : (state : Heap α × List ObjectRef) → (r : ObjectRef) → Heap α × List ObjectRef
  | (h, stack), r => if h.mark? r = some .white then (h.setMark r .gray, r :: stack) else (h, stack)

omit [Traceable α] in
/-- Shades several objects in order. -/
def shadeAll (state : Heap α × List ObjectRef) (rs : List ObjectRef) : Heap α × List ObjectRef :=
  rs.foldl shade state

/-- What the object behind a handle refers to. -/
def childrenOf (h : Heap α) (r : ObjectRef) : List ObjectRef :=
  ((h.get? r).map Traceable.handles).getD []

/-- Takes gray objects from the stack, shades their children and makes them black, at most `fuel`
times. -/
def drain : (fuel : Nat) → Heap α → List ObjectRef → Heap α
  | 0, h, _ => h
  | _ + 1, h, [] => h
  | fuel + 1, h, r :: stack =>
    let (shaded, stack) := shadeAll (h, stack) (h.childrenOf r)
    drain fuel (shaded.setMark r .black) stack

omit [Traceable α] in
/-- The immortal objects in allocation order. -/
def immortals (h : Heap α) : List ObjectRef :=
  h.handles.filter fun r => ((h.header? r).map (·.immortal)).getD false

/-- Marks everything that can be reached from the roots and the immortal objects. -/
def markFrom (h : Heap α) (roots : List ObjectRef) : Heap α :=
  let (shaded, stack) := shadeAll (h, []) (roots ++ h.immortals)
  drain h.slots.size shaded stack

omit [Traceable α] in
/-- Removes an object that is white and not immortal, and makes any other white; counts the
removals. -/
def sweepOne : (state : Nat × Heap α) → (r : ObjectRef) → Nat × Heap α
  | (reclaimed, h), r =>
    match h.header? r with
    | some x =>
      if !x.immortal && x.mark = .white then (reclaimed + 1, h.remove r.index)
      else (reclaimed, h.setMark r .white)
    | none => (reclaimed, h)

omit [Traceable α] in
/-- Sweeps the given objects in order. -/
def sweep (h : Heap α) (live : List ObjectRef) : Nat × Heap α := live.foldl sweepOne (0, h)

/-- Removes what cannot be reached; the count of it comes first. -/
def collect (h : Heap α) (roots : List ObjectRef) : Nat × Heap α :=
  let (reclaimed, swept) := (h.markFrom roots).sweep h.handles
  (reclaimed,
    { swept with stats := { swept.stats with
        collections := swept.stats.collections + 1
        lastReclaimed := reclaimed } })

end VaultKernel.Heap
