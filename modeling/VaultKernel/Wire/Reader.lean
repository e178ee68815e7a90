import VaultKernel.Wire.Error
import VaultKernel.Wire.Word

/-!
# Reading bytes

A reader moves a cursor over bytes. A read that fails leaves the cursor where the failing part
began, so what was consumed before it stays consumed. Counts are checked against the bytes that are
left before any entry is read.
-/

namespace VaultKernel.Wire

/-- The bytes still to be read, and how many were read before them. -/
structure Cursor where
  rest : Bytes
  position : Nat := 0
  deriving DecidableEq, Repr

/-- A computation that reads bytes and may fail. -/
abbrev Reader := EStateM Error Cursor

/-- The first `n` elements and the others, if there are at least `n`. -/
def takeExactly {α : Type} : Nat → List α → Option (List α × List α)
  | 0, xs => some ([], xs)
  | _ + 1, [] => none
  | n + 1, x :: xs => (takeExactly n xs).map fun (taken, rest) => (x :: taken, rest)

/-- The beginning of a list can be taken. -/
theorem takeExactly_append {α : Type} (xs ys : List α) :
    takeExactly xs.length (xs ++ ys) = some (xs, ys) := by
  induction xs with
  | nil => rfl
  | cons x xs ih => simp [takeExactly, ih]

/-- What is taken from a list is the beginning of it. -/
theorem eq_append_of_takeExactly {α : Type} {n : Nat} {xs taken rest : List α}
    (h : takeExactly n xs = some (taken, rest)) : xs = taken ++ rest ∧ taken.length = n := by
  induction n generalizing xs taken with
  | zero => simp_all [takeExactly]
  | succ n ih =>
    cases xs with
    | nil => simp [takeExactly] at h
    | cons x xs =>
      obtain ⟨⟨taken', rest'⟩, htail, hpair⟩ := Option.map_eq_some_iff.1 h
      simp only [Prod.mk.injEq] at hpair
      obtain ⟨rfl, rfl⟩ := hpair
      obtain ⟨rfl, rfl⟩ := ih htail
      simp

namespace Cursor

/-- A cursor at the start of `bytes`. -/
def start (bytes : Bytes) : Cursor := ⟨bytes, 0⟩

/-- The number of bytes left. -/
def remaining (c : Cursor) : Nat := c.rest.length

/-- Whether nothing is left. -/
def isAtEnd (c : Cursor) : Bool := c.rest.isEmpty

end Cursor

namespace Reader

/-- Runs a reader over `bytes` from the start, for its answer alone. -/
def decode {α : Type} (reader : Reader α) (bytes : Bytes) : Except Error α :=
  match reader (.start bytes) with
  | .ok a _ => .ok a
  | .error e _ => .error e

/-- The current position. -/
def position : Reader Nat := do return (← get).position

/-- Reads `n` bytes. -/
def bytes (n : Nat) : Reader Bytes := do
  let c ← get
  match takeExactly n c.rest with
  | some (taken, rest) =>
    set (Cursor.mk rest (c.position + n))
    return taken
  | none => throw (.unexpectedEnd c.position n)

/-- Reads a word of `width` bytes. -/
def word (width : Nat) : Reader Nat := do return Word.ofBytes (← bytes width)

/-- Reads a byte. -/
def u8 : Reader UInt8 := do return UInt8.ofNat (← word 1)

/-- Reads a byte as a truth value; every byte but zero is true. -/
def bool : Reader Bool := do return (← u8) ≠ 0

/-- Reads an unsigned word of 16 bits. -/
def u16 : Reader UInt16 := do return UInt16.ofNat (← word 2)

/-- Reads a signed word of 16 bits. -/
def i16 : Reader Int16 := do return (← u16).toInt16

/-- Reads an unsigned word of 32 bits. -/
def u32 : Reader UInt32 := do return UInt32.ofNat (← word 4)

/-- Reads a signed word of 32 bits. -/
def i32 : Reader Int32 := do return (← u32).toInt32

/-- Reads without moving the cursor. -/
def peek {α : Type} (reader : Reader α) : Reader α := fun c =>
  match reader c with
  | .ok a _ => .ok a c
  | .error e _ => .error e c

/-- Refuses a negative length that was read at `offset`. -/
def nonNegative (length : Int) (offset : Nat) : Reader Nat :=
  if length < 0 then throw (.invalidLength length offset) else return length.toNat

/-- Reads a length of 32 bits. -/
def length : Reader Nat := do
  let offset ← position
  nonNegative (← i32).toInt offset

/-- Reads a length of 16 bits. -/
def shortLength : Reader Nat := do
  let offset ← position
  nonNegative (← i16).toInt offset

/-- Refuses a count, read at `offset`, whose entries of at least `entrySize` bytes, and at least one
byte, cannot fit in what is left. -/
def fitting (count entrySize offset : Nat) : Reader Nat := do
  let left := (← get).remaining
  if left < count * max entrySize 1 then throw (.countOverflow count offset left)
  return count

/-- Reads a count of 32 bits of entries of at least `entrySize` bytes. -/
def count (entrySize : Nat) : Reader Nat := do
  let offset ← position
  fitting (← length) entrySize offset

/-- Reads a count of 16 bits of entries of at least `entrySize` bytes. -/
def shortCount (entrySize : Nat) : Reader Nat := do
  let offset ← position
  fitting (← shortLength) entrySize offset

/-- Reads `n` entries. -/
def times {α : Type} (entry : Reader α) : Nat → Reader (List α)
  | 0 => return []
  | n + 1 => do return (← entry) :: (← times entry n)

/-- Reads a count of 32 bits and that many entries. -/
def list {α : Type} (entrySize : Nat) (entry : Reader α) : Reader (List α) := do
  times entry (← count entrySize)

/-- Reads a length of 32 bits and that many bytes. -/
def block : Reader Bytes := do bytes (← length)

/-- The text with the given UTF-8 bytes. -/
def textOf? (bytes : Bytes) : Option String := String.fromUTF8? ⟨bytes.toArray⟩

/-- Reads a length of 32 bits and a text of that many bytes. -/
def text : Reader String := do
  let n ← length
  let offset ← position
  match textOf? (← bytes n) with
  | some t => return t
  | none => throw (.invalidText offset)

/-- Reads a count of 32 bits and that many signed words. -/
def words : Reader (List Int32) := list 4 i32

end Reader

end VaultKernel.Wire
