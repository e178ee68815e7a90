import VaultKernel.Proofs.Wire.Reads

/-!
# How far readers read

A reader of counted lists looks at all bytes that are left, so it is not obvious that its answer
depends only on the bytes it takes. `Definite size reader` says so: wherever the reader succeeds, it
takes at least `size` bytes, it takes them for the same value whatever follows, and on every shorter
beginning of them it runs out of bytes. It rests on the least sizes that counts are checked with:
the entries of a list that was read are at least as long as the check of their count asks for.
-/

namespace VaultKernel.Wire

variable {α β : Type}

/-- Whether bytes were refused because they end before what they announce does. -/
def Error.isShortage : Error → Bool
  | .unexpectedEnd _ _ | .countOverflow _ _ _ => true
  | .unsupportedVersion _ _ | .invalidLength _ _ | .lengthOverflow _ _ | .invalidText _
  | .invalidTypeCode _ | .invalidConstraint _ | .invalidConstant _ _ _ | .blockMismatch _ _ _ =>
    false

/-- The reader runs out of bytes on every beginning of these bytes that is not all of them. -/
def Starves (reader : Reader α) (bytes : Bytes) : Prop :=
  ∀ given missing position, bytes = given ++ missing → missing ≠ [] →
    ∃ e c, reader ⟨given, position⟩ = .error e c ∧ e.isShortage

/-- The reader takes these bytes for the value, whatever follows them, and needs all of them. -/
structure Takes (reader : Reader α) (bytes : Bytes) (a : α) : Prop where
  reads : Reads reader bytes a
  starves : Starves reader bytes

/-- Wherever the reader succeeds, it takes `size` bytes or more. -/
def Definite (size : Nat) (reader : Reader α) : Prop :=
  ∀ c a c', reader c = .ok a c' →
    ∃ bytes, c.rest = bytes ++ c'.rest ∧ size ≤ bytes.length ∧ Takes reader bytes a

variable {reader : Reader α} {next : α → Reader β} {front back : Bytes} {a : α} {b : β}
  {size size' : Nat}

/-! ## Sequences -/

/-- No bytes at all have no proper beginning to run out on. -/
theorem Starves.nil (reader : Reader α) : Starves reader [] := by
  intro given missing position hsplit hmissing
  exact absurd (List.append_eq_nil_iff.1 hsplit.symm).2 hmissing

/-- Where the first step runs out of bytes, so does the sequence. -/
theorem Starves.bind_last (hfirst : Starves reader front) : Starves (reader >>= next) front := by
  intro given missing position hsplit hmissing
  obtain ⟨e, c, hrun, he⟩ := hfirst given missing position hsplit hmissing
  exact ⟨e, c, bind_of_eq_error hrun, he⟩

/-- A reader runs out on the bytes of its parts if each part runs out on its own. -/
theorem Starves.bind (hfirst : Starves reader front) (hreads : Reads reader front a)
    (hnext : Starves (next a) back) : Starves (reader >>= next) (front ++ back) := by
  intro given missing position hsplit hmissing
  by_cases hshort : given.length < front.length
  · -- the first step runs out of bytes
    have hgiven : given <+: front :=
      List.prefix_of_prefix_length_le ⟨missing, hsplit.symm⟩ (List.prefix_append _ _) (by omega)
    obtain ⟨others, rfl⟩ := hgiven
    have hothers : others ≠ [] := by
      rintro rfl
      simp at hshort
    exact hfirst.bind_last given others position rfl hothers
  · -- the first step has all it needs
    have hfront : front <+: given :=
      List.prefix_of_prefix_length_le (List.prefix_append _ _) ⟨missing, hsplit.symm⟩ (by omega)
    obtain ⟨more, rfl⟩ := hfront
    rw [List.append_assoc, List.append_cancel_left_eq] at hsplit
    obtain ⟨e, c, hrun, he⟩ := hnext more missing (position + front.length) hsplit hmissing
    exact ⟨e, c, bind_of_eq_ok (hreads more position) hrun, he⟩

/-- The position may be used, but bytes run out wherever they stand. -/
theorem Starves.position {next : Nat → Reader α} (hnext : ∀ offset, Starves (next offset) front) :
    Starves (Reader.position >>= next) front :=
  fun given missing position => hnext position given missing position

/-- What two readers take one after the other they take together. -/
theorem Takes.bind (hfirst : Takes reader front a) (hnext : Takes (next a) back b) :
    Takes (reader >>= next) (front ++ back) b :=
  ⟨hfirst.reads.bind hnext.reads, hfirst.starves.bind hfirst.reads hnext.starves⟩

/-- Two readers in a row take at least what each of them takes. -/
theorem Definite.bind (hfirst : Definite size reader) (hnext : ∀ a, Definite size' (next a)) :
    Definite (size + size') (reader >>= next) := by
  intro c b c' hrun
  obtain ⟨a, c₁, hread, hrest⟩ := bind_ok_cases hrun
  obtain ⟨bytes, hsplit, hsize, htakes⟩ := hfirst c a c₁ hread
  obtain ⟨more, hsplit', hsize', htakes'⟩ := hnext a c₁ b c' hrest
  refine ⟨bytes ++ more, ?_, ?_, htakes.bind htakes'⟩
  · rw [hsplit, hsplit', List.append_assoc]
  · rw [List.length_append]
    omega

/-- Who takes more takes less, too. -/
theorem Definite.mono (h : Definite size reader) (hle : size' ≤ size) : Definite size' reader := by
  intro c a c' hrun
  obtain ⟨bytes, hsplit, hsize, htakes⟩ := h c a c' hrun
  exact ⟨bytes, hsplit, Nat.le_trans hle hsize, htakes⟩

theorem Definite.pure (a : α) : Definite 0 (pure a : Reader α) := by
  intro c b c' hrun
  cases hrun
  exact ⟨[], rfl, Nat.le_refl 0, Reads.pure a, .nil _⟩

theorem Definite.throw (size : Nat) (e : Error) : Definite size (throw e : Reader α) := by
  intro c a c' hrun
  cases hrun

/-- A last step that only puts the value together. -/
theorem Definite.map (f : α → β) (h : Definite size reader) :
    Definite size (do return f (← reader)) :=
  h.bind fun a => .pure (f a)

/-! ## Words -/

/-- A list that is too short has no beginning of that length. -/
theorem takeExactly_eq_none {n : Nat} {xs : List α} (h : xs.length < n) :
    takeExactly n xs = none := by
  cases htake : takeExactly n xs with
  | none => rfl
  | some pair =>
      obtain ⟨taken, rest⟩ := pair
      obtain ⟨rfl, hlength⟩ := eq_append_of_takeExactly htake
      rw [List.length_append] at h
      omega

/-- Exactly as many bytes as were asked for are taken. -/
theorem Takes.bytes (bytes : Bytes) : Takes (Reader.bytes bytes.length) bytes bytes := by
  refine ⟨Reads.bytes bytes, fun given missing position hsplit hmissing => ?_⟩
  have hshort : given.length < bytes.length := by
    have hpos := List.length_pos_iff.2 hmissing
    rw [hsplit, List.length_append]
    omega
  refine ⟨.unexpectedEnd position bytes.length, ⟨given, position⟩, ?_, rfl⟩
  rw [Reader.bytes, get_bind]
  simp only [takeExactly_eq_none hshort]
  rfl

/-- Bytes that are read were the next ones, and as many as asked for. -/
theorem bytes_eq_ok {n : Nat} {bytes : Bytes} {c c' : Cursor}
    (h : Reader.bytes n c = .ok bytes c') : bytes.length = n ∧ c.rest = bytes ++ c'.rest := by
  rw [Reader.bytes, get_bind] at h
  cases htake : takeExactly n c.rest with
  | none =>
      rw [htake] at h
      cases h
  | some pair =>
      obtain ⟨taken, rest⟩ := pair
      rw [htake] at h
      cases h
      obtain ⟨hsplit, hlength⟩ := eq_append_of_takeExactly htake
      exact ⟨hlength, hsplit⟩

/-- A row of bytes takes as many bytes as it announces. -/
theorem Definite.bytes (n : Nat) : Definite n (Reader.bytes n) := by
  intro c bytes c' hrun
  obtain ⟨rfl, hsplit⟩ := bytes_eq_ok hrun
  exact ⟨bytes, hsplit, Nat.le_refl _, .bytes bytes⟩

/-- A word takes as many bytes as it is wide. -/
theorem Definite.word (width : Nat) : Definite width (Reader.word width) :=
  (Definite.bytes width).map _

theorem Definite.u8 : Definite 1 Reader.u8 := (Definite.word 1).map _

theorem Definite.bool : Definite 1 Reader.bool := Definite.u8.map _

theorem Definite.u16 : Definite 2 Reader.u16 := (Definite.word 2).map _

theorem Definite.i16 : Definite 2 Reader.i16 := Definite.u16.map _

theorem Definite.u32 : Definite 4 Reader.u32 := (Definite.word 4).map _

theorem Definite.i32 : Definite 4 Reader.i32 := Definite.u32.map _

theorem Definite.typeIndex : Definite TypeIndex.size TypeIndex.read :=
  Definite.bool.bind fun _ => Definite.i32.map _

/-! ## Lengths and counts -/

/-- Asking for the position reads nothing. -/
theorem position_bind (next : Nat → Reader α) (c : Cursor) :
    (Reader.position >>= next) c = next c.position c := rfl

/-- A number that is accepted is not negative, and nothing more is read. -/
theorem nonNegative_eq_ok {z : Int} {offset n : Nat} {c c' : Cursor}
    (h : Reader.nonNegative z offset c = .ok n c') : z = n ∧ c' = c := by
  rw [Reader.nonNegative] at h
  split at h
  · cases h
  · cases h
    exact ⟨by omega, rfl⟩

/-- A length is refused because of its sign, never because of where it stands. -/
theorem Definite.nonNegative {toInt : α → Int} (h : Definite size reader) :
    Definite size
      (do let offset ← Reader.position; Reader.nonNegative (toInt (← reader)) offset) := by
  intro c n c' hrun
  rw [position_bind] at hrun
  obtain ⟨a, c₁, hread, hcheck⟩ := bind_ok_cases hrun
  obtain ⟨bytes, hsplit, hsize, htakes⟩ := h c a c₁ hread
  obtain ⟨ha, rfl⟩ := nonNegative_eq_ok hcheck
  exact ⟨bytes, hsplit, hsize, htakes.reads.nonNegative ha,
    .position fun offset => htakes.starves.bind_last⟩

theorem Definite.length : Definite 4 Reader.length := Definite.i32.nonNegative

theorem Definite.shortLength : Definite 2 Reader.shortLength := Definite.i16.nonNegative

/-- A count that fits is answered as it is, and nothing more is read. -/
theorem fitting_eq_ok {c c' : Cursor} {n n' offset : Nat}
    (h : Reader.fitting n size offset c = .ok n' c') : n' = n ∧ c' = c := by
  rw [Reader.fitting, get_bind] at h
  dsimp only at h
  split at h
  · cases h
  · cases h
    exact ⟨rfl, rfl⟩

/-- A count is refused if its entries cannot fit into what is left. -/
theorem fitting_eq_error {c : Cursor} {n : Nat} (hshort : c.remaining < n * max size 1)
    (offset : Nat) :
    Reader.fitting n size offset c = .error (.countOverflow n offset c.remaining) c := by
  rw [Reader.fitting, get_bind]
  dsimp only
  rw [if_pos hshort]
  rfl

/-- Too few entries are refused by the check of their count or by the first one that is missing. -/
theorem Starves.fitting {next : Nat → Reader α} {n : Nat} (hnext : Starves (next n) front)
    (offset : Nat) : Starves (Reader.fitting n size offset >>= next) front := by
  intro given missing position hsplit hmissing
  by_cases hfew : Cursor.remaining ⟨given, position⟩ < n * max size 1
  · exact ⟨_, _, bind_of_eq_error (fitting_eq_error hfew offset), rfl⟩
  · obtain ⟨e, c, hrun, he⟩ := hnext given missing position hsplit hmissing
    exact ⟨e, c, bind_of_eq_ok (fitting_eq (Nat.not_lt.1 hfew) offset) hrun, he⟩

/-- A count is checked against all that is left, but entries of their least size pass the check on
their own. -/
theorem Definite.fitting {count : Reader Nat} {next : Nat → Reader α} (hcount : Definite size count)
    (hnext : ∀ n, Definite (n * max size' 1) (next n)) :
    Definite size
      ((do let offset ← Reader.position; Reader.fitting (← count) size' offset) >>= next) := by
  intro c a c' hrun
  obtain ⟨n, c₂, hcounted, hrest⟩ := bind_ok_cases hrun
  rw [position_bind] at hcounted
  obtain ⟨k, c₁, hread, hfits⟩ := bind_ok_cases hcounted
  obtain ⟨rfl, rfl⟩ := fitting_eq_ok hfits
  obtain ⟨bytes, hsplit, hsize, htakes⟩ := hcount c n c₂ hread
  obtain ⟨entries, hsplit', hroom, htakes'⟩ := hnext n c₂ a c' hrest
  refine ⟨bytes ++ entries, ?_, ?_, htakes.reads.fitting htakes'.reads hroom, ?_⟩
  · rw [hsplit, hsplit', List.append_assoc]
  · rw [List.length_append]
    omega
  · rw [bind_assoc]
    refine .position fun offset => ?_
    rw [bind_assoc]
    exact htakes.starves.bind htakes.reads (htakes'.starves.fitting offset)

/-! ## Lists, blocks and texts -/

/-- A row of equal readers takes as many bytes as its parts. -/
theorem Definite.times (h : Definite size reader) (n : Nat) :
    Definite (n * size) (Reader.times reader n) := by
  induction n with
  | zero => exact (Definite.pure []).mono (by omega)
  | succ n ih =>
      refine Definite.mono (h.bind fun x => ih.map (x :: ·)) ?_
      rw [Nat.succ_mul]
      omega

/-- A list takes the four bytes of its count at least. -/
theorem Definite.list (hpos : 0 < size) (h : Definite size reader) :
    Definite 4 (Reader.list size reader) := by
  refine Definite.length.fitting fun n => ?_
  rw [Nat.max_eq_left hpos]
  exact h.times n

/-- A block takes the four bytes of its length at least. -/
theorem Definite.block : Definite 4 Reader.block :=
  Definite.length.bind fun n => (Definite.bytes n).mono (Nat.zero_le n)

/-- A text that is read has a length, as many bytes and is valid UTF-8. -/
theorem text_eq_ok {t : String} {c c' : Cursor} (h : Reader.text c = .ok t c') :
    ∃ n c₁ content, Reader.length c = .ok n c₁ ∧ Reader.bytes n c₁ = .ok content c' ∧
      Reader.textOf? content = some t := by
  obtain ⟨n, c₁, hlength, hrest⟩ := bind_ok_cases h
  rw [position_bind] at hrest
  obtain ⟨content, c₂, hbytes, hcheck⟩ := bind_ok_cases hrest
  cases htext : Reader.textOf? content with
  | none =>
      rw [htext] at hcheck
      cases hcheck
  | some _ =>
      rw [htext] at hcheck
      cases hcheck
      exact ⟨n, c₁, content, hlength, hbytes, htext⟩

/-- A text takes the four bytes of its length at least. -/
theorem Definite.text : Definite 4 Reader.text := by
  intro c t c' hrun
  obtain ⟨n, c₁, content, hlength, hbytes, htext⟩ := text_eq_ok hrun
  obtain ⟨front, hsplit, hsize, htakes⟩ := Definite.length c n c₁ hlength
  obtain ⟨back, hsplit', _, htakes'⟩ := Definite.bytes n c₁ content c' hbytes
  refine ⟨front ++ back, ?_, ?_, ?_, ?_⟩
  · rw [hsplit, hsplit', List.append_assoc]
  · rw [List.length_append]
    omega
  · refine htakes.reads.bind (Reads.position fun offset => htakes'.reads.bind_last ?_)
    simp only [htext]
    exact Reads.pure t
  · exact htakes.starves.bind htakes.reads (.position fun offset => htakes'.starves.bind_last)

/-! ## Whole inputs -/

/-- An image that decodes was read from its beginning. -/
theorem decode_eq_ok {bytes : Bytes} (h : reader.decode bytes = .ok a) :
    ∃ c, reader (.start bytes) = .ok a c := by
  unfold Reader.decode at h
  split at h
  · next c hrun =>
      cases h
      exact ⟨c, hrun⟩
  · cases h

/-- An image fails to decode as its reader fails. -/
theorem decode_of_error {bytes : Bytes} {e : Error} {c : Cursor}
    (h : reader (.start bytes) = .error e c) : reader.decode bytes = .error e := by
  rw [Reader.decode, h]

/-- A definite reader that succeeds on bytes runs out of them on shorter beginnings, up to a length
from which on it gives the same answer. -/
theorem Definite.decode (h : Definite size reader) {bytes : Bytes}
    (hdecode : reader.decode bytes = .ok a) :
    ∃ n ≤ bytes.length,
      (∀ k < n, ∃ e, reader.decode (bytes.take k) = .error e ∧ e.isShortage) ∧
      ∀ bytes', bytes.take n <+: bytes' → reader.decode bytes' = .ok a := by
  obtain ⟨c, hrun⟩ := decode_eq_ok hdecode
  obtain ⟨taken, hsplit, _, htakes⟩ := h _ _ _ hrun
  have hbytes : bytes = taken ++ c.rest := hsplit
  refine ⟨taken.length, by rw [hbytes, List.length_append]; omega, fun k hk => ?_, ?_⟩
  · have htake : bytes.take k = taken.take k := by
      rw [hbytes, List.take_append_of_le_length (by omega)]
    have hmissing : taken.drop k ≠ [] := by
      rw [Ne, List.drop_eq_nil_iff]
      omega
    obtain ⟨e, c', hstarved, he⟩ :=
      htakes.starves (taken.take k) (taken.drop k) 0 (List.take_append_drop k taken).symm hmissing
    rw [htake]
    exact ⟨e, decode_of_error hstarved, he⟩
  · rintro _ ⟨tail, rfl⟩
    rw [hbytes, List.take_left]
    exact htakes.reads.decode tail

end VaultKernel.Wire
