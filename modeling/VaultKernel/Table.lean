/-!
# Tables

A table maps keys to entries; of two entries under one key the one inserted later counts.
-/

namespace VaultKernel

/-- Entries under keys, the one inserted last in front. -/
structure Table (κ α : Type) where
  entries : List (κ × α) := []
  deriving Repr

namespace Table

variable {κ α : Type} [DecidableEq κ]

omit [DecidableEq κ] in
/-- Puts an entry under a key. -/
def insert (t : Table κ α) (key : κ) (entry : α) : Table κ α := ⟨(key, entry) :: t.entries⟩

/-- The entry under a key. -/
def get? (t : Table κ α) (key : κ) : Option α := t.entries.lookup key

omit [DecidableEq κ] in
/-- The table of the given entries, inserted in order. -/
def ofList (entries : List (κ × α)) : Table κ α := ⟨entries.reverse⟩

end Table

end VaultKernel
