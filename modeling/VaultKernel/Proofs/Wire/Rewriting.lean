import VaultKernel.Proofs.Wire.Extents

/-!
# Writing what was read

`Rewrites reader a written` says that wherever the reader takes bytes for the value, the value can
be written in no more bytes than that. A length that was read fits in its prefix again, and what is
written is no longer than what was read, so no prefix around it can overflow either.
-/

namespace VaultKernel.Wire

variable {α β : Type} {reader : Reader α} {a : α} {c c' : Cursor} {size : Nat}

/-- Wherever the reader takes bytes for the value, what is written for it has no more bytes. -/
def Rewrites (reader : Reader α) (a : α) (written : Except Error Bytes) : Prop :=
  ∀ c c', reader c = .ok a c' →
    ∃ bytes, written = .ok bytes ∧ bytes.length + c'.remaining ≤ c.remaining

/-- A reader leaves at most what its least size leaves. -/
theorem Definite.size_le (h : Definite size reader) (hrun : reader c = .ok a c') :
    size + c'.remaining ≤ c.remaining := by
  obtain ⟨bytes, hsplit, hsize, _⟩ := h c a c' hrun
  rw [Cursor.remaining, Cursor.remaining, hsplit, List.length_append]
  omega

/-- A whole input that decodes to a value has room for what is written for it. -/
theorem Rewrites.decode {written : Except Error Bytes} (h : Rewrites reader a written)
    {bytes : Bytes} (hdecode : reader.decode bytes = .ok a) :
    ∃ out, written = .ok out ∧ out.length ≤ bytes.length := by
  obtain ⟨c, hrun⟩ := decode_eq_ok hdecode
  obtain ⟨out, hwritten, hsize⟩ := h _ _ hrun
  exact ⟨out, hwritten, Nat.le_trans (Nat.le_add_right _ _) hsize⟩

/-! ## Lengths -/

/-- A length that was read is in the range of its prefix. -/
theorem lt_of_nonNegative {toInt : α → Int} {n bound : Nat} (hbound : ∀ a, toInt a < bound)
    (hrun : (do let offset ← Reader.position; Reader.nonNegative (toInt (← reader)) offset) c =
      .ok n c') : n < bound := by
  rw [position_bind] at hrun
  obtain ⟨a, _, _, hcheck⟩ := bind_ok_cases hrun
  obtain ⟨ha, _⟩ := nonNegative_eq_ok hcheck
  have hlt := hbound a
  omega

/-- A length that was read can be written. -/
theorem Rewrites.length (n : Nat) : Rewrites Reader.length n (Writer.length n) := by
  intro c c' hrun
  have hlt := lt_of_nonNegative Int32.toInt_lt hrun
  refine ⟨Word.toBytes 4 n, if_pos hlt, ?_⟩
  rw [Word.length_toBytes]
  exact Definite.length.size_le hrun

/-- A short length that was read can be written. -/
theorem Rewrites.shortLength (n : Nat) : Rewrites Reader.shortLength n (Writer.shortLength n) := by
  intro c c' hrun
  have hlt := lt_of_nonNegative Int16.toInt_lt hrun
  refine ⟨Word.toBytes 2 n, if_pos hlt, ?_⟩
  rw [Word.length_toBytes]
  exact Definite.shortLength.size_le hrun

/-! ## Blocks and texts -/

/-- A block that was read can be written. -/
theorem Rewrites.block (content : Bytes) :
    Rewrites Reader.block content (Writer.block content) := by
  intro c c' hrun
  obtain ⟨n, c₁, hlength, hbytes⟩ := bind_ok_cases hrun
  obtain ⟨rfl, hsplit⟩ := bytes_eq_ok hbytes
  obtain ⟨count, hcount, hsize⟩ := Rewrites.length _ c c₁ hlength
  refine ⟨count ++ content, bind_eq_ok.2 ⟨count, hcount, rfl⟩, ?_⟩
  rw [Cursor.remaining, Cursor.remaining, hsplit, List.length_append] at hsize
  rw [List.length_append, Cursor.remaining, Cursor.remaining]
  omega

/-- A shorter block can be written if a longer one can. -/
theorem block_of_length_le {content content' written : Bytes}
    (hwritten : Writer.block content = .ok written) (hle : content'.length ≤ content.length) :
    ∃ written', Writer.block content' = .ok written' ∧ written'.length ≤ written.length := by
  obtain ⟨count, hcount, heq⟩ := bind_eq_ok.1 hwritten
  cases pure_eq_ok.1 heq
  rw [Writer.length] at hcount
  split at hcount
  · next hlt =>
      cases hcount
      have hlength : Writer.length content'.length = .ok (Word.toBytes 4 content'.length) := by
        rw [Writer.length, if_pos (by omega)]
      refine ⟨_, bind_eq_ok.2 ⟨_, hlength, rfl⟩, ?_⟩
      simp only [List.length_append, Word.length_toBytes]
      omega
  · cases hcount

/-- The UTF-8 bytes of a text are as many as it is said to take. -/
theorem length_utf8 (t : String) : (Writer.utf8 t).length = t.utf8ByteSize := by
  rw [Writer.utf8, Array.length_toList]
  exact t.size_toByteArray

/-- Bytes that are read as a text are its UTF-8 bytes. -/
theorem utf8_of_textOf? {bytes : Bytes} {t : String} (h : Reader.textOf? bytes = some t) :
    Writer.utf8 t = bytes := by
  rw [Reader.textOf?, String.fromUTF8?] at h
  split at h
  · cases h
    rfl
  · cases h

/-- A text that was read can be written. -/
theorem Rewrites.text (t : String) : Rewrites Reader.text t (Writer.text t) := by
  intro c c' hrun
  obtain ⟨n, c₁, content, hlength, hbytes, htext⟩ := text_eq_ok hrun
  rw [Writer.text, utf8_of_textOf? htext]
  exact Rewrites.block content c c' (bind_of_eq_ok hlength hbytes)

/-! ## Lists -/

/-- A row of values that were read can be written, each in the bytes that it was read from. -/
theorem Rewrites.times {write : α → Except Error Bytes} {xs : List α} {n : Nat}
    (hentry : ∀ x ∈ xs, Rewrites reader x (write x)) (hrun : Reader.times reader n c = .ok xs c') :
    xs.length = n ∧ ∃ written, xs.mapM write = .ok written ∧
      written.flatten.length + c'.remaining ≤ c.remaining := by
  induction n generalizing c xs with
  | zero =>
      cases hrun
      exact ⟨rfl, [], rfl, by simp⟩
  | succ n ih =>
      obtain ⟨x, c₁, hfirst, hrest⟩ := bind_ok_cases hrun
      obtain ⟨rest, c₂, hothers, heq⟩ := bind_ok_cases hrest
      cases heq
      obtain ⟨bytes, hwritten, hsize⟩ := hentry x (by simp) c c₁ hfirst
      obtain ⟨hlength, others, hmapped, hsizes⟩ := ih (fun y hy => hentry y (by simp [hy])) hothers
      refine ⟨by rw [List.length_cons, hlength], bytes :: others, ?_, ?_⟩
      · rw [List.mapM_cons]
        exact bind_eq_ok.2 ⟨bytes, hwritten, bind_eq_ok.2 ⟨others, hmapped, rfl⟩⟩
      · rw [List.flatten_cons, List.length_append]
        omega

/-- A count that is accepted is a length. -/
theorem count_eq_ok {n : Nat} (h : Reader.count size c = .ok n c') :
    Reader.length c = .ok n c' := by
  rw [Reader.count, position_bind] at h
  obtain ⟨k, c₁, hlength, hfits⟩ := bind_ok_cases h
  obtain ⟨rfl, rfl⟩ := fitting_eq_ok hfits
  exact hlength

/-- A short count that is accepted is a short length. -/
theorem shortCount_eq_ok {n : Nat} (h : Reader.shortCount size c = .ok n c') :
    Reader.shortLength c = .ok n c' := by
  rw [Reader.shortCount, position_bind] at h
  obtain ⟨k, c₁, hlength, hfits⟩ := bind_ok_cases h
  obtain ⟨rfl, rfl⟩ := fitting_eq_ok hfits
  exact hlength

/-- A list that was read can be written. -/
theorem Rewrites.list {write : α → Except Error Bytes} {xs : List α}
    (hentry : ∀ x ∈ xs, Rewrites reader x (write x)) :
    Rewrites (Reader.list size reader) xs (Writer.list write xs) := by
  intro c c' hrun
  obtain ⟨n, c₁, hcounted, htimes⟩ := bind_ok_cases hrun
  obtain ⟨rfl, written, hmapped, hsizes⟩ := Rewrites.times hentry htimes
  obtain ⟨count, hcount, hsize⟩ := Rewrites.length _ c c₁ (count_eq_ok hcounted)
  refine ⟨_, bind_eq_ok.2 ⟨count, hcount, bind_eq_ok.2 ⟨written, hmapped, rfl⟩⟩, ?_⟩
  rw [List.length_append]
  omega

/-- Entries of one size that can always be written. -/
theorem Rewrites.plainList {write : α → Bytes} {xs : List α} (h : Definite size reader)
    (hsize : ∀ x ∈ xs, (write x).length ≤ size) :
    Rewrites (Reader.list size reader) xs (Writer.list (fun x => .ok (write x)) xs) := by
  refine Rewrites.list fun x hx c c' hrun => ⟨write x, rfl, ?_⟩
  have hwritten := hsize x hx
  have htaken := h.size_le hrun
  omega

/-! ## What readers return -/

/-- Every value that the reader returns has the property. -/
def Yields (reader : Reader α) (P : α → Prop) : Prop :=
  ∀ c a c', reader c = .ok a c' → P a

variable {P : α → Prop} {Q : β → Prop} {next : α → Reader β}

/-- An answer that has the property is a value that has it. -/
theorem Yields.pure (h : P a) : Yields (pure a : Reader α) P := by
  intro c b c' hrun
  cases hrun
  exact h

/-- Properties of values carry over from one reader to the next. -/
theorem Yields.bind (h : Yields reader P) (hnext : ∀ a, P a → Yields (next a) Q) :
    Yields (reader >>= next) Q := by
  intro c b c' hrun
  obtain ⟨a, c₁, hread, hrest⟩ := bind_ok_cases hrun
  exact hnext a (h c a c₁ hread) c₁ b c' hrest

/-- A first step whose value does not matter. -/
theorem Yields.after (hnext : ∀ a, Yields (next a) Q) : Yields (reader >>= next) Q :=
  Yields.bind (P := fun _ => True) (fun _ _ _ _ => trivial) fun a _ => hnext a

/-- In a row of values each has the property. -/
theorem Yields.times (h : Yields reader P) (n : Nat) :
    Yields (Reader.times reader n) fun xs => ∀ x ∈ xs, P x := by
  induction n with
  | zero => exact .pure (by simp)
  | succ n ih =>
      exact h.bind fun x hx => ih.bind fun rest hrest => .pure (List.forall_mem_cons.2 ⟨hx, hrest⟩)

/-- In a list of values each has the property. -/
theorem Yields.list (h : Yields reader P) :
    Yields (Reader.list size reader) fun xs => ∀ x ∈ xs, P x :=
  .after fun n => h.times n

end VaultKernel.Wire
