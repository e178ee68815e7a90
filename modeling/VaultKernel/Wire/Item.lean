import VaultKernel.Wire.TypeIndex

/-!
# Items

An item is one value on the wire together with its kind. A buffer grows by bytes that are appended;
an item with a length first appends the length, which may fail, and then what it counts. A request
names the kind of the next item to read.
-/

namespace VaultKernel.Wire

/-- One value on the wire. -/
inductive Item where
  | u8 (value : UInt8)
  | bool (value : Bool)
  | i16 (value : Int16)
  | u16 (value : UInt16)
  | i32 (value : Int32)
  | u32 (value : UInt32)
  /-- Bytes without a length. -/
  | bytes (value : Bytes)
  /-- A length, or a count of entries, of 32 bits. -/
  | length (value : Nat)
  /-- A length, or a count of entries, of 16 bits. -/
  | shortLength (value : Nat)
  | text (value : String)
  | words (value : List Int32)
  /-- Bytes after their length. -/
  | block (value : Bytes)
  | typeIndex (value : TypeIndex)
  deriving DecidableEq, Repr

/-- The bytes of an item. -/
def Item.encode : Item → Except Error Bytes
  | .u8 v => .ok (Writer.u8 v)
  | .bool v => .ok (Writer.bool v)
  | .i16 v => .ok (Writer.i16 v)
  | .u16 v => .ok (Writer.u16 v)
  | .i32 v => .ok (Writer.i32 v)
  | .u32 v => .ok (Writer.u32 v)
  | .bytes v => .ok v
  | .length v => Writer.length v
  | .shortLength v => Writer.shortLength v
  | .text v => Writer.text v
  | .words v => Writer.words v
  | .block v => Writer.block v
  | .typeIndex v => .ok v.bytes

/-- The bytes written so far. -/
structure Buffer where
  written : Bytes := []
  deriving DecidableEq, Repr

namespace Buffer

/-- Appends bytes. -/
def append (bytes : Bytes) : EStateM Error Buffer Unit :=
  modify fun buffer => ⟨buffer.written ++ bytes⟩

/-- Appends a length of 32 bits, if it fits. -/
def putLength (n : Nat) : EStateM Error Buffer Unit :=
  match Writer.length n with
  | .ok bytes => append bytes
  | .error e => throw e

/-- Appends a length of 16 bits, if it fits. -/
def putShortLength (n : Nat) : EStateM Error Buffer Unit :=
  match Writer.shortLength n with
  | .ok bytes => append bytes
  | .error e => throw e

/-- Appends a length of 32 bits and the bytes. -/
def putBlock (bytes : Bytes) : EStateM Error Buffer Unit := do
  putLength bytes.length
  append bytes

/-- Appends a count of 32 bits and the words one by one. -/
def putWords (ws : List Int32) : EStateM Error Buffer Unit := do
  putLength ws.length
  ws.forM fun w => append (Writer.i32 w)

/-- Appends whether a type is generic, and its number. -/
def putTypeIndex : TypeIndex → EStateM Error Buffer Unit
  | .type index => do
    append (Writer.bool false)
    append (Writer.i32 index)
  | .generic key => do
    append (Writer.bool true)
    append (Writer.i32 key)

/-- Appends an item. -/
def put : Item → EStateM Error Buffer Unit
  | .u8 v => append (Writer.u8 v)
  | .bool v => append (Writer.bool v)
  | .i16 v => append (Writer.i16 v)
  | .u16 v => append (Writer.u16 v)
  | .i32 v => append (Writer.i32 v)
  | .u32 v => append (Writer.u32 v)
  | .bytes v => append v
  | .length n => putLength n
  | .shortLength n => putShortLength n
  | .text t => putBlock (Writer.utf8 t)
  | .words ws => putWords ws
  | .block v => putBlock v
  | .typeIndex v => putTypeIndex v

end Buffer

/-- The kind of the next item to read. -/
inductive Request where
  | u8 | bool | i16 | u16 | i32 | u32
  /-- A signed word of 16 bits, read without moving on. -/
  | peekI16
  | length | shortLength | text | words | block | typeIndex
  /-- A count of entries of at least `entrySize` bytes. -/
  | count (entrySize : Nat)
  /-- A short count of entries of at least `entrySize` bytes. -/
  | shortCount (entrySize : Nat)
  | bytes (n : Nat)
  deriving DecidableEq, Repr

/-- Reads the requested item. -/
def Request.read : Request → Reader Item
  | .u8 => Item.u8 <$> Reader.u8
  | .bool => Item.bool <$> Reader.bool
  | .i16 => Item.i16 <$> Reader.i16
  | .u16 => Item.u16 <$> Reader.u16
  | .i32 => Item.i32 <$> Reader.i32
  | .u32 => Item.u32 <$> Reader.u32
  | .peekI16 => Item.i16 <$> Reader.peek Reader.i16
  | .length => Item.length <$> Reader.length
  | .shortLength => Item.shortLength <$> Reader.shortLength
  | .text => Item.text <$> Reader.text
  | .words => Item.words <$> Reader.words
  | .block => Item.block <$> Reader.block
  | .typeIndex => Item.typeIndex <$> TypeIndex.read
  | .count entrySize => Item.length <$> Reader.count entrySize
  | .shortCount entrySize => Item.shortLength <$> Reader.shortCount entrySize
  | .bytes n => Item.bytes <$> Reader.bytes n

end VaultKernel.Wire
