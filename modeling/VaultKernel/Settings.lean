import VaultKernel.File.Path
import VaultKernel.Toml.Document
import VaultKernel.Vault.Basic

/-!
# Settings

The settings file has a section for the vault and one for the heap. A key that is not known or has a
value of the wrong type makes the whole file invalid. A section is a table, or an array that gives
the values of its keys in order; the limits of the heap must not be missing from such an array.
-/

namespace VaultKernel

/-- The content of a settings file. -/
structure Settings where
  name : String := "quill"
  /-- Directories in which dependencies are looked for. -/
  searchPaths : List String := []
  validateTokens : Bool := true
  maxBytes : Option UInt64 := none
  threshold : Option UInt64 := none
  checkLeaks : Bool := false
  deriving DecidableEq, Repr

namespace Settings

/-- The name of the settings file that is looked for. -/
def fileName : String := "quill.toml"

/-! ## Values -/

/-- A text. -/
def text? : Toml.Value → Option String
  | .string text => some text
  | _ => none

/-- A truth value. -/
def bool? : Toml.Value → Option Bool
  | .boolean b => some b
  | _ => none

/-- A number of bytes. -/
def size? : Toml.Value → Option UInt64
  | .integer numeral => do
    let n ← numeral.value?
    if 0 ≤ n ∧ n < 18446744073709551616 then some (UInt64.ofNat n.toNat) else none
  | _ => none

/-- A list of texts. -/
def texts? : Toml.Value → Option (List String)
  | .array items => items.mapM text?
  | _ => none

/-! ## Sections -/

/-- The entries of a section with the given keys, of which the first `required` may not be missing
from an array. -/
def section? (keys : List String) (required : Nat) :
    Toml.Value → Option (List (String × Toml.Value))
  | .table entries => some entries
  | .array items => if required ≤ items.length then some (keys.zip items) else none
  | _ => none

/-- Reads an entry of the section of the vault. -/
def readVault (s : Settings) (entry : String × Toml.Value) : Option Settings := do
  match entry.1 with
  | "name" => return { s with name := ← text? entry.2 }
  | "search_paths" => return { s with searchPaths := ← texts? entry.2 }
  | "validate_tokens" => return { s with validateTokens := ← bool? entry.2 }
  | _ => none

/-- Reads an entry of the section of the heap. -/
def readHeap (s : Settings) (entry : String × Toml.Value) : Option Settings := do
  match entry.1 with
  | "max_bytes" => return { s with maxBytes := some (← size? entry.2) }
  | "gc_threshold" => return { s with threshold := some (← size? entry.2) }
  | "check_memory_leak" => return { s with checkLeaks := ← bool? entry.2 }
  | _ => none

/-- Reads a section. -/
def readSection (s : Settings) (entry : String × Toml.Value) : Option Settings := do
  match entry.1 with
  | "vault" => (← section? ["name", "search_paths", "validate_tokens"] 0 entry.2).foldlM readVault s
  | "heap" =>
    (← section? ["max_bytes", "gc_threshold", "check_memory_leak"] 2 entry.2).foldlM readHeap s
  | _ => none

/-- The settings that a text gives. -/
def parse? (text : String) : Option Settings := do (← Toml.parse? text).foldlM readSection {}

/-- The settings of a vault: the search paths of the caller come first, and those of the file are
taken relative to `base`. -/
def vaultConfig (s : Settings) (base : String) (extra : List String) : VaultConfig :=
  let limits : HeapLimits := {}
  { name := s.name
    heap :=
      { maxBytes := s.maxBytes.getD limits.maxBytes
        threshold := s.threshold.getD limits.threshold
        checkLeaks := s.checkLeaks }
    searchPaths := extra ++ s.searchPaths.map (Path.join base)
    validateTokens := s.validateTokens }

end Settings

end VaultKernel
