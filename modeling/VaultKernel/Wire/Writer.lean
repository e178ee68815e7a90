import VaultKernel.Wire.Error
import VaultKernel.Wire.Word

/-!
# Writing bytes

The bytes of each kind of value. Only a length can fail, when it does not fit in its prefix.
-/

namespace VaultKernel.Wire.Writer

/-- A byte. -/
def u8 (v : UInt8) : Bytes := [v]

/-- A truth value in one byte. -/
def bool (b : Bool) : Bytes := [if b then 1 else 0]

/-- An unsigned word of 16 bits. -/
def u16 (v : UInt16) : Bytes := Word.toBytes 2 v.toNat

/-- A signed word of 16 bits. -/
def i16 (v : Int16) : Bytes := u16 v.toUInt16

/-- An unsigned word of 32 bits. -/
def u32 (v : UInt32) : Bytes := Word.toBytes 4 v.toNat

/-- A signed word of 32 bits. -/
def i32 (v : Int32) : Bytes := u32 v.toUInt32

/-- A length of 32 bits. -/
def length (n : Nat) : Except Error Bytes :=
  if n < 2147483648 then .ok (Word.toBytes 4 n) else .error (.lengthOverflow n 32)

/-- A length of 16 bits. -/
def shortLength (n : Nat) : Except Error Bytes :=
  if n < 32768 then .ok (Word.toBytes 2 n) else .error (.lengthOverflow n 16)

/-- A length of 32 bits and the bytes. -/
def block (bytes : Bytes) : Except Error Bytes := do return (← length bytes.length) ++ bytes

/-- The UTF-8 bytes of a text. -/
def utf8 (text : String) : Bytes := text.toUTF8.data.toList

/-- A length of 32 bits and the UTF-8 bytes of a text. -/
def text (t : String) : Except Error Bytes := block (utf8 t)

/-- A count of 32 bits and the entries. -/
def list {α : Type} (entry : α → Except Error Bytes) (xs : List α) : Except Error Bytes := do
  let count ← length xs.length
  return count ++ (← xs.mapM entry).flatten

/-- A count of 32 bits and the signed words. -/
def words (ws : List Int32) : Except Error Bytes := list (fun w => .ok (i32 w)) ws

end VaultKernel.Wire.Writer
