import VaultKernel.Proofs.Wire.Reads
import VaultKernel.Wire.Item

/-!
# Cursors only move forward

A read that fails keeps what it consumed before its failing part, so the cursor that it leaves
behind is in general another one than it found. `Advances reader` says what holds of every read,
whether it succeeds or fails: the bytes that are left are those that were left before without the
ones that the position passed over. `Advances.request` is the statement to read first.
-/

namespace VaultKernel.Wire

variable {α β : Type}

namespace Cursor

variable {c c₁ c₂ : Cursor}

/-- The later cursor is the earlier one after it passed over some of the bytes that were left. -/
def Precedes (c c' : Cursor) : Prop :=
  ∃ passed, c.rest = passed ++ c'.rest ∧ c'.position = c.position + passed.length

theorem Precedes.refl (c : Cursor) : c.Precedes c := ⟨[], rfl, rfl⟩

/-- Passing over bytes twice is passing over them once. -/
theorem Precedes.trans (h : c.Precedes c₁) (h' : c₁.Precedes c₂) : c.Precedes c₂ := by
  obtain ⟨passed, hrest, hposition⟩ := h
  obtain ⟨more, hrest', hposition'⟩ := h'
  refine ⟨passed ++ more, ?_, ?_⟩
  · rw [hrest, hrest', List.append_assoc]
  · rw [hposition', hposition, List.length_append, Nat.add_assoc]

/-- The later cursor is not behind. -/
theorem Precedes.position_le (h : c.Precedes c₁) : c.position ≤ c₁.position := by
  obtain ⟨passed, _, hposition⟩ := h
  omega

/-- A cursor that comes from the start of the bytes stands at its position in them. -/
theorem Precedes.of_start {bytes : Bytes} (h : (start bytes).Precedes c) :
    c.position ≤ bytes.length ∧ c.rest = bytes.drop c.position := by
  obtain ⟨passed, hrest, hposition⟩ := h
  have hbytes : bytes = passed ++ c.rest := hrest
  have hpassed : c.position = passed.length := by simpa [start] using hposition
  refine ⟨?_, ?_⟩
  · have hlength := congrArg List.length hbytes
    rw [List.length_append] at hlength
    omega
  · rw [hpassed, hbytes, List.drop_left]

end Cursor

/-- Whether it succeeds or fails, the reader moves the cursor only forward and only over bytes that
were left. -/
def Advances (reader : Reader α) : Prop := ∀ c : Cursor, c.Precedes (stateAfter (reader c))

namespace Advances

variable {reader : Reader α} {next : α → Reader β}

/-! ## Sequences -/

theorem pure (a : α) : Advances (pure a : Reader α) := fun c => .refl c

theorem throw (e : Error) : Advances (throw e : Reader α) := fun c => .refl c

theorem get : Advances (get : Reader Cursor) := fun c => .refl c

/-- A sequence ends where its first step failed, or goes on from where that step ended. -/
theorem bind (hfirst : Advances reader) (hnext : ∀ a, Advances (next a)) :
    Advances (reader >>= next) := by
  intro c
  have hmoved := hfirst c
  refine of_bind (P := fun run => c.Precedes (stateAfter run)) (fun a c' hrun => ?_)
    fun e c' hrun => ?_
  · rw [hrun] at hmoved
    exact hmoved.trans (hnext a c')
  · rwa [hrun] at hmoved

/-- A last step that only puts the value together. -/
theorem bind_pure (h : Advances reader) (f : α → β) : Advances (do return f (← reader)) :=
  h.bind fun a => .pure (f a)

/-- Changing the answer does not move the cursor. -/
theorem map (h : Advances reader) (f : α → β) : Advances (f <$> reader) := by
  rw [map_eq_pure_bind]
  exact h.bind_pure f

theorem position : Advances Reader.position := get.bind_pure Cursor.position

/-- Looking ahead does not move the cursor at all. -/
theorem peek (reader : Reader α) : Advances (Reader.peek reader) := by
  intro c
  rw [Reader.peek]
  cases reader c <;> exact .refl c

/-! ## Words -/

/-- As many bytes as were asked for are passed over, or none. -/
theorem bytes (n : Nat) : Advances (Reader.bytes n) := by
  intro c
  rw [Reader.bytes, get_bind]
  cases htake : takeExactly n c.rest with
  | none => exact .refl c
  | some pair =>
      obtain ⟨hsplit, hlength⟩ := eq_append_of_takeExactly htake
      exact ⟨pair.1, hsplit, congrArg (c.position + ·) hlength.symm⟩

/-- A word is the bytes it is made of. -/
theorem word (width : Nat) : Advances (Reader.word width) := (bytes width).bind_pure _

theorem u8 : Advances Reader.u8 := (word 1).bind_pure _

theorem bool : Advances Reader.bool := u8.bind_pure _

theorem u16 : Advances Reader.u16 := (word 2).bind_pure _

theorem i16 : Advances Reader.i16 := u16.bind_pure _

theorem u32 : Advances Reader.u32 := (word 4).bind_pure _

theorem i32 : Advances Reader.i32 := u32.bind_pure _

theorem typeIndex : Advances TypeIndex.read := bool.bind fun _ => i32.bind_pure _

/-! ## Lengths and counts -/

/-- A check of a number moves nothing. -/
theorem nonNegative (n : Int) (offset : Nat) : Advances (Reader.nonNegative n offset) := by
  unfold Reader.nonNegative
  split
  · exact throw _
  · exact pure _

/-- A length is a number and a check of it. -/
theorem length : Advances Reader.length :=
  position.bind fun offset => i32.bind fun z => nonNegative z.toInt offset

theorem shortLength : Advances Reader.shortLength :=
  position.bind fun offset => i16.bind fun z => nonNegative z.toInt offset

/-- A check of a count moves nothing. -/
theorem fitting (count entrySize offset : Nat) :
    Advances (Reader.fitting count entrySize offset) := by
  refine get.bind fun c => ?_
  dsimp only
  split
  · exact (throw _).bind fun _ => pure _
  · exact (pure _).bind fun _ => pure _

/-- A count is a length and a check against what is left. -/
theorem count (entrySize : Nat) : Advances (Reader.count entrySize) :=
  position.bind fun offset => length.bind fun n => fitting n entrySize offset

theorem shortCount (entrySize : Nat) : Advances (Reader.shortCount entrySize) :=
  position.bind fun offset => shortLength.bind fun n => fitting n entrySize offset

/-! ## Lists, blocks and texts -/

/-- A row of reads moves forward if each of them does. -/
theorem times (h : Advances reader) (n : Nat) : Advances (Reader.times reader n) := by
  induction n with
  | zero => exact pure []
  | succ n ih => exact h.bind fun x => ih.bind_pure (x :: ·)

/-- A list is a count and a row of reads. -/
theorem list (h : Advances reader) (entrySize : Nat) : Advances (Reader.list entrySize reader) :=
  (count entrySize).bind fun n => h.times n

theorem words : Advances Reader.words := i32.list 4

theorem block : Advances Reader.block := length.bind bytes

/-- A text that is not UTF-8 is refused behind its bytes. -/
theorem text : Advances Reader.text := by
  refine length.bind fun n => position.bind fun offset => (bytes n).bind fun content => ?_
  split
  · exact pure _
  · exact throw _

/-- A request moves the cursor forward and only over bytes that were left. -/
theorem request (r : Request) : Advances r.read := by
  cases r with
  | u8 => exact u8.map _
  | bool => exact bool.map _
  | i16 => exact i16.map _
  | u16 => exact u16.map _
  | i32 => exact i32.map _
  | u32 => exact u32.map _
  | peekI16 => exact (peek _).map _
  | length => exact length.map _
  | shortLength => exact shortLength.map _
  | text => exact text.map _
  | words => exact words.map _
  | block => exact block.map _
  | typeIndex => exact typeIndex.map _
  | count entrySize => exact (count entrySize).map _
  | shortCount entrySize => exact (shortCount entrySize).map _
  | bytes n => exact (bytes n).map _

end Advances

end VaultKernel.Wire
