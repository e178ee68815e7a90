/-!
# String pools

A pool keeps one copy of every text that was put into it. A text is known by its place, which is the
same for equal texts and never changes.
-/

namespace VaultKernel

/-- The distinct texts of a pool in the order of their arrival. -/
structure StringPool where
  texts : Array String := #[]

namespace StringPool

/-- The number of distinct texts. -/
def size (p : StringPool) : Nat := p.texts.size

/-- Whether the pool is empty. -/
def isEmpty (p : StringPool) : Bool := p.texts.isEmpty

/-- The place of a text and the pool that holds it. -/
def intern (p : StringPool) (text : String) : Nat × StringPool :=
  match p.texts.idxOf? text with
  | some place => (place, p)
  | none => (p.texts.size, ⟨p.texts.push text⟩)

end StringPool

end VaultKernel
