import VaultKernel.Proofs.Outcome
import VaultKernel.Wire.TypeIndex

/-!
# What readers make of written bytes

`Reads reader bytes a` says that the reader takes exactly these bytes for the value `a`, whatever
follows them. Readers are put together with `bind`, and so are the bytes they take: `Reads.bind` is
the only lemma about sequences. `Mirrors` ties a reader to what is written for a value; its size is
what the counts of lists rely on.
-/

namespace VaultKernel.Wire

variable {α β : Type}

/-- The reader takes exactly these bytes for the value, whatever follows them. -/
def Reads (reader : Reader α) (bytes : Bytes) (a : α) : Prop :=
  ∀ rest position, reader ⟨bytes ++ rest, position⟩ = .ok a ⟨rest, position + bytes.length⟩

/-- What is written for the value, if it can be written, has at least `size` bytes, and the reader
takes it for the value. -/
def Mirrors (reader : Reader α) (size : Nat) (a : α) (written : Except Error Bytes) : Prop :=
  ∀ bytes, written = .ok bytes → size ≤ bytes.length ∧ Reads reader bytes a

/-! ## Sequences -/

theorem Reads.pure (a : α) : Reads (pure a : Reader α) [] a := fun _ _ => rfl

/-- What two readers take in a row is what the first takes and then the second. -/
theorem Reads.bind {reader : Reader α} {next : α → Reader β} {bytes more : Bytes} {a : α} {b : β}
    (hfirst : Reads reader bytes a) (hnext : Reads (next a) more b) :
    Reads (reader >>= next) (bytes ++ more) b := by
  intro rest position
  show EStateM.bind reader next _ = _
  rw [EStateM.bind, List.append_assoc, hfirst]
  show next a _ = _
  rw [hnext, List.length_append, Nat.add_assoc]

/-- A step that reads nothing after others. -/
theorem Reads.bind_last {reader : Reader α} {next : α → Reader β} {bytes : Bytes} {a : α} {b : β}
    (hfirst : Reads reader bytes a) (hnext : Reads (next a) [] b) :
    Reads (reader >>= next) bytes b := by
  rw [← List.append_nil bytes]
  exact hfirst.bind hnext

/-- A last step that only puts the value together. -/
theorem Reads.map {reader : Reader α} {bytes : Bytes} {a : α} (f : α → β)
    (hreader : Reads reader bytes a) : Reads (do return f (← reader)) bytes (f a) :=
  hreader.bind_last (Reads.pure (f a))

/-- A step that reads nothing before others. -/
theorem Reads.bind_nil {reader : Reader α} {next : α → Reader β} {bytes : Bytes} {a : α} {b : β}
    (hfirst : Reads reader [] a) (hnext : Reads (next a) bytes b) :
    Reads (reader >>= next) bytes b := hfirst.bind hnext

/-- The position may be used, but not for the answer. -/
theorem Reads.position {next : Nat → Reader α} {bytes : Bytes} {a : α}
    (hnext : ∀ offset, Reads (next offset) bytes a) :
    Reads (Reader.position >>= next) bytes a := fun rest position => hnext position rest position

/-- A whole input is read if its beginning is, whatever follows. -/
theorem Reads.decode {reader : Reader α} {bytes : Bytes} {a : α} (hreader : Reads reader bytes a)
    (tail : Bytes) : reader.decode (bytes ++ tail) = .ok a := by
  rw [Reader.decode, Cursor.start, hreader]

/-- A value that can always be written. -/
theorem Mirrors.ok {reader : Reader α} {size : Nat} {a : α} {bytes : Bytes}
    (hsize : size ≤ bytes.length) (hreader : Reads reader bytes a) :
    Mirrors reader size a (.ok bytes) := by
  intro written hwritten
  cases hwritten
  exact ⟨hsize, hreader⟩

/-! ## Words -/

/-- The cursor is read before a step that depends on it. -/
theorem get_bind (next : Cursor → Reader α) (c : Cursor) : (get >>= next) c = next c c := rfl

/-- As many bytes as are asked for are taken as they are. -/
theorem Reads.bytes (bytes : Bytes) : Reads (Reader.bytes bytes.length) bytes bytes := by
  intro rest position
  rw [Reader.bytes, get_bind]
  simp only [takeExactly_append]
  rfl

/-- A word is read back as what fits into its width. -/
theorem Reads.word (width n : Nat) :
    Reads (Reader.word width) (Word.toBytes width n) (n % Word.range width) := by
  have hbytes := (Reads.bytes (Word.toBytes width n)).map Word.ofBytes
  rwa [Word.length_toBytes, Word.ofBytes_toBytes] at hbytes

/-- A byte is read back. -/
theorem Reads.u8 (v : UInt8) : Reads Reader.u8 (Writer.u8 v) v := by
  have hword := (Reads.word 1 v.toNat).map UInt8.ofNat
  have hv : UInt8.ofNat (v.toNat % Word.range 1) = v := by
    rw [show Word.range 1 = 256 from rfl, Nat.mod_eq_of_lt v.toNat_lt, UInt8.ofNat_toNat]
  have hbytes : Word.toBytes 1 v.toNat = Writer.u8 v := by
    simp only [Word.toBytes, Writer.u8, Nat.mod_eq_of_lt v.toNat_lt, UInt8.ofNat_toNat]
  rwa [hv, hbytes] at hword

/-- A truth value is read back. -/
theorem Reads.bool (b : Bool) : Reads Reader.bool (Writer.bool b) b := by
  have hbyte := (Reads.u8 (if b then 1 else 0)).map fun v => decide (v ≠ 0)
  cases b
  · exact hbyte
  · exact hbyte

/-- An unsigned 16-bit number is read back. -/
theorem Reads.u16 (v : UInt16) : Reads Reader.u16 (Writer.u16 v) v := by
  have hword := (Reads.word 2 v.toNat).map UInt16.ofNat
  have hv : UInt16.ofNat (v.toNat % Word.range 2) = v := by
    rw [show Word.range 2 = 65536 from rfl, Nat.mod_eq_of_lt v.toNat_lt, UInt16.ofNat_toNat]
  rwa [hv] at hword

/-- A signed 16-bit number is read back. -/
theorem Reads.i16 (v : Int16) : Reads Reader.i16 (Writer.i16 v) v :=
  (Reads.u16 v.toUInt16).map UInt16.toInt16

/-- An unsigned 32-bit number is read back. -/
theorem Reads.u32 (v : UInt32) : Reads Reader.u32 (Writer.u32 v) v := by
  have hword := (Reads.word 4 v.toNat).map UInt32.ofNat
  have hv : UInt32.ofNat (v.toNat % Word.range 4) = v := by
    rw [show Word.range 4 = 4294967296 from rfl, Nat.mod_eq_of_lt v.toNat_lt, UInt32.ofNat_toNat]
  rwa [hv] at hword

/-- A signed 32-bit number is read back. -/
theorem Reads.i32 (v : Int32) : Reads Reader.i32 (Writer.i32 v) v :=
  (Reads.u32 v.toUInt32).map UInt32.toInt32

@[simp]
theorem length_u8 (v : UInt8) : (Writer.u8 v).length = 1 := rfl

@[simp]
theorem length_bool (b : Bool) : (Writer.bool b).length = 1 := rfl

@[simp]
theorem length_u16 (v : UInt16) : (Writer.u16 v).length = 2 := Word.length_toBytes _ _

@[simp]
theorem length_i16 (v : Int16) : (Writer.i16 v).length = 2 := Word.length_toBytes _ _

@[simp]
theorem length_u32 (v : UInt32) : (Writer.u32 v).length = 4 := Word.length_toBytes _ _

@[simp]
theorem length_i32 (v : Int32) : (Writer.i32 v).length = 4 := Word.length_toBytes _ _

/-! ## Lengths and counts -/

/-- A length that fits is the same number after its trip through 32 bits. -/
theorem toInt_length {n : Nat} (hn : n < 2147483648) :
    (UInt32.ofNat (n % Word.range 4)).toInt32.toInt = n := by
  rw [show Word.range 4 = 4294967296 from rfl, Nat.mod_eq_of_lt (by omega)]
  simp only [Int32.toInt, UInt32.toBitVec_toInt32]
  rw [BitVec.toInt_eq_toNat_of_lt (by simp; omega)]
  simp
  omega

/-- A short length that fits is the same number after its trip through 16 bits. -/
theorem toInt_shortLength {n : Nat} (hn : n < 32768) :
    (UInt16.ofNat (n % Word.range 2)).toInt16.toInt = n := by
  rw [show Word.range 2 = 65536 from rfl, Nat.mod_eq_of_lt (by omega)]
  simp only [Int16.toInt, UInt16.toBitVec_toInt16]
  rw [BitVec.toInt_eq_toNat_of_lt (by simp; omega)]
  simp
  omega

/-- A word that stands for a natural number is a length. -/
theorem Reads.nonNegative {reader : Reader α} {toInt : α → Int} {bytes : Bytes} {a : α} {n : Nat}
    (hreader : Reads reader bytes a) (ha : toInt a = n) :
    Reads (do let offset ← Reader.position; Reader.nonNegative (toInt (← reader)) offset) bytes
      n := by
  refine Reads.position fun offset => ?_
  refine hreader.bind_last ?_
  rw [ha, Reader.nonNegative, if_neg (by omega), Int.toNat_natCast]
  exact Reads.pure n

/-- A length is read back as it was written. -/
theorem Mirrors.length (n : Nat) : Mirrors Reader.length 4 n (Writer.length n) := by
  intro bytes hwritten
  rw [Writer.length] at hwritten
  split at hwritten
  · next hn =>
      cases hwritten
      have hword := ((Reads.word 4 n).map UInt32.ofNat).map UInt32.toInt32
      exact ⟨by simp, hword.nonNegative (toInt_length hn)⟩
  · cases hwritten

/-- A short length is read back as it was written. -/
theorem Mirrors.shortLength (n : Nat) :
    Mirrors Reader.shortLength 2 n (Writer.shortLength n) := by
  intro bytes hwritten
  rw [Writer.shortLength] at hwritten
  split at hwritten
  · next hn =>
      cases hwritten
      have hword := ((Reads.word 2 n).map UInt16.ofNat).map UInt16.toInt16
      exact ⟨by simp, hword.nonNegative (toInt_shortLength hn)⟩
  · cases hwritten

/-- A count with room for its entries passes its check. -/
theorem fitting_eq {c : Cursor} {n size : Nat} (hroom : n * max size 1 ≤ c.remaining)
    (offset : Nat) : Reader.fitting n size offset c = .ok n c := by
  have hfits : ¬ c.remaining < n * max size 1 := by omega
  rw [Reader.fitting, get_bind]
  simp only [if_neg hfits]
  rfl

/-- A count is accepted if the entries that follow it have their least size. -/
theorem Reads.fitting {count : Reader Nat} {next : Nat → Reader α} {bytes entries : Bytes} {n : Nat}
    {a : α} {size : Nat} (hcount : Reads count bytes n) (hnext : Reads (next n) entries a)
    (hroom : n * max size 1 ≤ entries.length) :
    Reads ((do let offset ← Reader.position; Reader.fitting (← count) size offset) >>= next)
      (bytes ++ entries) a := by
  rw [bind_assoc]
  refine Reads.position fun offset => ?_
  rw [bind_assoc]
  refine hcount.bind fun rest position => ?_
  show EStateM.bind _ next _ = _
  rw [EStateM.bind, fitting_eq (by rw [Cursor.remaining, List.length_append]; omega)]
  exact hnext rest position

/-! ## Lists -/

/-- Entries that were written one after the other are read one after the other. -/
theorem Reads.times {entry : Reader α} {write : α → Except Error Bytes} {size : Nat} {xs : List α}
    {written : List Bytes} (hentry : ∀ x ∈ xs, Mirrors entry size x (write x))
    (hwritten : xs.mapM write = .ok written) :
    xs.length * size ≤ written.flatten.length ∧
      Reads (Reader.times entry xs.length) written.flatten xs := by
  induction xs generalizing written with
  | nil =>
      cases hwritten
      exact ⟨by simp, Reads.pure []⟩
  | cons x xs ih =>
      rw [List.mapM_cons, bind_eq_ok] at hwritten
      obtain ⟨first, hfirst, hrest⟩ := hwritten
      obtain ⟨others, hothers, heq⟩ := bind_eq_ok.1 hrest
      cases pure_eq_ok.1 heq
      obtain ⟨hsize, hread⟩ := hentry x (by simp) first hfirst
      obtain ⟨hsizes, hreads⟩ := ih (fun y hy => hentry y (by simp [hy])) hothers
      refine ⟨?_, ?_⟩
      · rw [List.flatten_cons, List.length_append, List.length_cons, Nat.add_mul, Nat.one_mul]
        omega
      · rw [List.flatten_cons]
        exact hread.bind (hreads.map (x :: ·))

/-- A list is read back if its entries are. -/
theorem Mirrors.list {entry : Reader α} {write : α → Except Error Bytes} {size : Nat} {xs : List α}
    (hpos : 0 < size) (hentry : ∀ x ∈ xs, Mirrors entry size x (write x)) :
    Mirrors (Reader.list size entry) 4 xs (Writer.list write xs) := by
  intro bytes hwritten
  obtain ⟨count, hcount, hrest⟩ := bind_eq_ok.1 hwritten
  obtain ⟨written, hentries, heq⟩ := bind_eq_ok.1 hrest
  cases pure_eq_ok.1 heq
  obtain ⟨hcounted, hlength⟩ := Mirrors.length xs.length count hcount
  obtain ⟨hsizes, hreads⟩ := Reads.times hentry hentries
  -- the entries are as long as the check of the count asks for
  refine ⟨by rw [List.length_append]; omega, hlength.fitting hreads ?_⟩
  rwa [Nat.max_eq_left hpos]

/-- Entries that can always be written. -/
theorem Mirrors.plainList {entry : Reader α} {write : α → Bytes} {size : Nat} {xs : List α}
    (hpos : 0 < size) (hsize : ∀ x ∈ xs, size ≤ (write x).length)
    (hentry : ∀ x ∈ xs, Reads entry (write x) x) :
    Mirrors (Reader.list size entry) 4 xs (Writer.list (fun x => .ok (write x)) xs) :=
  Mirrors.list hpos fun x hx => Mirrors.ok (hsize x hx) (hentry x hx)

/-- A list of numbers is read back. -/
theorem Mirrors.words (ws : List Int32) : Mirrors Reader.words 4 ws (Writer.words ws) :=
  Mirrors.plainList (by decide) (fun w _ => by simp) fun w _ => Reads.i32 w

/-! ## Blocks and texts -/

/-- What a writer wrote into a block can be taken out of it. -/
theorem Mirrors.block (content : Bytes) :
    Mirrors Reader.block 4 content (Writer.block content) := by
  intro bytes hwritten
  obtain ⟨count, hcount, heq⟩ := bind_eq_ok.1 hwritten
  cases pure_eq_ok.1 heq
  obtain ⟨hcounted, hlength⟩ := Mirrors.length content.length count hcount
  exact ⟨by rw [List.length_append]; omega, hlength.bind (Reads.bytes content)⟩

/-- The UTF-8 bytes of a text are a text again. -/
theorem textOf?_utf8 (t : String) : Reader.textOf? (Writer.utf8 t) = some t := by
  have hbytes : ByteArray.mk (Writer.utf8 t).toArray = t.toByteArray := by
    simp [Writer.utf8]
  rw [Reader.textOf?, hbytes, String.fromUTF8?]
  simp [String.fromUTF8, t.isValidUTF8]

/-- A text is read back. -/
theorem Mirrors.text (t : String) : Mirrors Reader.text 4 t (Writer.text t) := by
  intro bytes hwritten
  obtain ⟨count, hcount, heq⟩ := bind_eq_ok.1 hwritten
  cases pure_eq_ok.1 heq
  obtain ⟨hcounted, hlength⟩ := Mirrors.length (Writer.utf8 t).length count hcount
  refine ⟨by rw [List.length_append]; omega, hlength.bind (Reads.position fun offset => ?_)⟩
  refine (Reads.bytes (Writer.utf8 t)).bind_last ?_
  simp only [textOf?_utf8]
  exact Reads.pure t

/-- A type index is read back. -/
theorem Reads.typeIndex (t : TypeIndex) : Reads TypeIndex.read t.bytes t := by
  cases t with
  | type index => exact (Reads.bool false).bind ((Reads.i32 index).map TypeIndex.type)
  | generic key => exact (Reads.bool true).bind ((Reads.i32 key).map TypeIndex.generic)

@[simp]
theorem length_typeIndex (t : TypeIndex) : t.bytes.length = 5 := by
  cases t <;> simp [TypeIndex.bytes]

end VaultKernel.Wire
