import Mathlib.Algebra.Group.Nat.Defs
import VaultKernel.Proofs.Wire.Advances
import VaultKernel.Proofs.Wire.Rewriting

/-!
# Items one after another

Items are put into a buffer and read from a cursor in any order, and a step that fails does not end
the run: the next one goes on from the state that it left behind. A byte array and a block are the
same item. `sequences_faithful` is the statement to read first. What a run of items leaves in a
buffer is read back, item by item, by the requests of those that were written; a run of requests
over any bytes moves the cursor forward and never past the end.
-/

namespace VaultKernel.Wire

/-! ## Runs -/

section Runs

variable {ι ε σ α : Type}

/-- One step of a run: what was asked for, the state that it found and how it went. -/
structure Step (ι ε σ α : Type) where
  command : ι
  before : σ
  result : EStateM.Result ε σ α

namespace Step

/-- The state that a step leaves behind, whether it succeeded or not. -/
def after (s : Step ι ε σ α) : σ := stateAfter s.result

/-- The answer of a step that succeeded. -/
def answer? (s : Step ι ε σ α) : Option α := answerOf? s.result

/-- Whether a step succeeded. -/
def succeeded (s : Step ι ε σ α) : Bool := s.answer?.isSome

end Step

variable {perform : ι → EStateM ε σ α}

/-- The steps of a run. Each goes on from the state that the one before it left behind, also if that
one failed. -/
def history (perform : ι → EStateM ε σ α) : List ι → σ → List (Step ι ε σ α)
  | [], _ => []
  | command :: commands, s =>
    ⟨command, s, perform command s⟩ :: history perform commands (stateAfter (perform command s))

/-- The state that a run leaves behind. -/
def stateAfterAll (perform : ι → EStateM ε σ α) : List ι → σ → σ
  | [], s => s
  | command :: commands, s => stateAfterAll perform commands (stateAfter (perform command s))

/-- The commands of a run that succeeded, in order. -/
def successes (perform : ι → EStateM ε σ α) (commands : List ι) (s : σ) : List ι :=
  ((history perform commands s).filter Step.succeeded).map Step.command

/-- Every step of a run performs its command in the state that it found. -/
theorem result_of_mem_history {commands : List ι} {s : σ} {step : Step ι ε σ α}
    (h : step ∈ history perform commands s) : step.result = perform step.command step.before := by
  induction commands generalizing s with
  | nil => cases h
  | cons command commands ih =>
      rcases List.mem_cons.1 h with rfl | h
      · rfl
      · exact ih h

/-- What every step leaves in order is in order over a whole run. -/
theorem history_pairwise {R : σ → σ → Prop} (htrans : ∀ {s₁ s₂ s₃}, R s₁ s₂ → R s₂ s₃ → R s₁ s₃)
    (hstep : ∀ command s, R s (stateAfter (perform command s))) (commands : List ι) (s : σ) :
    (s :: (history perform commands s).map Step.after).Pairwise R := by
  induction commands generalizing s with
  | nil => exact List.pairwise_singleton R s
  | cons command commands ih =>
      have hrest := ih (stateAfter (perform command s))
      refine List.pairwise_cons.2 ⟨fun s' hs' => ?_, hrest⟩
      rcases List.mem_cons.1 hs' with rfl | hs'
      · exact hstep command s
      · exact htrans (hstep command s) ((List.pairwise_cons.1 hrest).1 s' hs')

end Runs

/-! ## One item -/

/-- The request that reads an item. -/
def Item.request : Item → Request
  | .u8 _ => .u8
  | .bool _ => .bool
  | .i16 _ => .i16
  | .u16 _ => .u16
  | .i32 _ => .i32
  | .u32 _ => .u32
  | .bytes v => .bytes v.length
  | .length _ => .length
  | .shortLength _ => .shortLength
  | .text _ => .text
  | .words _ => .words
  | .block _ => .block
  | .typeIndex _ => .typeIndex

/-- Whether the length of an item, if it has one, fits in its prefix. -/
def Item.Fits : Item → Prop
  | .length n => n < 2 ^ 31
  | .shortLength n => n < 2 ^ 15
  | .text t => t.utf8ByteSize < 2 ^ 31
  | .words ws => ws.length < 2 ^ 31
  | .block b => b.length < 2 ^ 31
  | .u8 _ | .bool _ | .i16 _ | .u16 _ | .i32 _ | .u32 _ | .bytes _ | .typeIndex _ => True

variable {item : Item} {bytes : Bytes} {e : Error}

/-- A length can be written exactly if it fits in 31 bits. -/
theorem length_eq_ok_iff {n : Nat} :
    (∃ bytes, Writer.length n = .ok bytes) ↔ n < 2 ^ 31 := by
  rw [Writer.length]
  split <;> simp <;> omega

/-- A short length can be written exactly if it fits in 15 bits. -/
theorem shortLength_eq_ok_iff {n : Nat} :
    (∃ bytes, Writer.shortLength n = .ok bytes) ↔ n < 2 ^ 15 := by
  rw [Writer.shortLength]
  split <;> simp <;> omega

/-- A block can be written exactly if its length fits in 31 bits. -/
theorem block_eq_ok_iff {content : Bytes} :
    (∃ bytes, Writer.block content = .ok bytes) ↔ content.length < 2 ^ 31 :=
  (exists_bind_eq_ok fun _ => ⟨_, rfl⟩).trans length_eq_ok_iff

/-- Numbers can be written exactly if their count fits in 31 bits. -/
theorem words_eq_ok_iff {ws : List Int32} :
    (∃ bytes, Writer.words ws = .ok bytes) ↔ ws.length < 2 ^ 31 := by
  have hentries : ws.mapM (fun w => (.ok (Writer.i32 w) : Except Error Bytes)) =
      .ok (ws.map Writer.i32) := List.mapM_pure
  refine (exists_bind_eq_ok fun count => ?_).trans length_eq_ok_iff
  rw [hentries]
  exact ⟨_, rfl⟩

/-- An item can be written exactly if its length fits. -/
theorem Item.encode_eq_ok_iff : (∃ bytes, item.encode = .ok bytes) ↔ item.Fits := by
  cases item with
  | length n => exact length_eq_ok_iff
  | shortLength n => exact shortLength_eq_ok_iff
  | text t =>
      rw [Item.Fits, ← length_utf8]
      exact block_eq_ok_iff
  | words ws => exact words_eq_ok_iff
  | block content => exact block_eq_ok_iff
  | u8 | bool | i16 | u16 | i32 | u32 | bytes | typeIndex =>
      exact ⟨fun _ => trivial, fun _ => ⟨_, rfl⟩⟩

/-- Changing the answer of a reader does not change the bytes that it takes. -/
theorem Reads.fmap {α β : Type} {reader : Reader α} {a : α} (f : α → β)
    (h : Reads reader bytes a) : Reads (f <$> reader) bytes (f a) := by
  rw [map_eq_pure_bind]
  exact h.map f

/-- What was written for an item is read back by its request. -/
theorem Reads.request (h : item.encode = .ok bytes) : Reads item.request.read bytes item := by
  cases item with
  | u8 v => cases h; exact (Reads.u8 v).fmap Item.u8
  | bool v => cases h; exact (Reads.bool v).fmap Item.bool
  | i16 v => cases h; exact (Reads.i16 v).fmap Item.i16
  | u16 v => cases h; exact (Reads.u16 v).fmap Item.u16
  | i32 v => cases h; exact (Reads.i32 v).fmap Item.i32
  | u32 v => cases h; exact (Reads.u32 v).fmap Item.u32
  | bytes v => cases h; exact (Reads.bytes bytes).fmap Item.bytes
  | typeIndex v => cases h; exact (Reads.typeIndex v).fmap Item.typeIndex
  | length n => exact (Mirrors.length n bytes h).2.fmap Item.length
  | shortLength n => exact (Mirrors.shortLength n bytes h).2.fmap Item.shortLength
  | text t => exact (Mirrors.text t bytes h).2.fmap Item.text
  | words ws => exact (Mirrors.words ws bytes h).2.fmap Item.words
  | block content => exact (Mirrors.block content bytes h).2.fmap Item.block

/-! ## The steps that write an item -/

/-- The steps append the encoded bytes, and without them they fail and leave the buffer. -/
def Appends (steps : EStateM Error Buffer Unit) (encoded : Except Error Bytes) : Prop :=
  ∀ buffer, steps buffer = match encoded with
    | .ok bytes => .ok () ⟨buffer.written ++ bytes⟩
    | .error e => .error e buffer

/-- Bytes that are appended as they are come behind what is there. -/
theorem Appends.append (bytes : Bytes) : Appends (Buffer.append bytes) (.ok bytes) := fun _ => rfl

/-- Only the first of two steps may fail, so that a failure leaves nothing in the buffer. -/
theorem Appends.andThen {first second : EStateM Error Buffer Unit} {prefixed : Except Error Bytes}
    {content : Bytes} (hfirst : Appends first prefixed) (hsecond : Appends second (.ok content)) :
    Appends (do first; second) (do return (← prefixed) ++ content) := by
  intro buffer
  have hbegun := hfirst buffer
  cases prefixed with
  | error e =>
      show EStateM.bind first (fun _ => second) buffer = .error e buffer
      rw [EStateM.bind, hbegun]
  | ok bytes =>
      show EStateM.bind first (fun _ => second) buffer =
        .ok () ⟨buffer.written ++ (bytes ++ content)⟩
      rw [EStateM.bind, hbegun, ← List.append_assoc]
      exact hsecond ⟨buffer.written ++ bytes⟩

/-- A length is appended, or refused before the buffer is touched. -/
theorem Appends.length (n : Nat) : Appends (Buffer.putLength n) (Writer.length n) := by
  intro buffer
  rw [Buffer.putLength]
  cases Writer.length n <;> rfl

/-- A short length is appended, or refused before the buffer is touched. -/
theorem Appends.shortLength (n : Nat) :
    Appends (Buffer.putShortLength n) (Writer.shortLength n) := by
  intro buffer
  rw [Buffer.putShortLength]
  cases Writer.shortLength n <;> rfl

/-- A block is appended behind its length, or nothing is. -/
theorem Appends.block (content : Bytes) :
    Appends (Buffer.putBlock content) (Writer.block content) :=
  (Appends.length content.length).andThen (.append content)

/-- Words are appended one by one. -/
theorem Appends.entries (ws : List Int32) :
    Appends (ws.forM fun w => Buffer.append (Writer.i32 w)) (.ok (ws.map Writer.i32).flatten) := by
  induction ws with
  | nil =>
      intro buffer
      show EStateM.Result.ok () buffer = .ok () ⟨buffer.written ++ []⟩
      rw [List.append_nil]
  | cons w ws ih =>
      rw [List.map_cons, List.flatten_cons]
      exact (Appends.append (Writer.i32 w)).andThen ih

/-- Numbers are appended behind their count, or nothing is. -/
theorem Appends.words (ws : List Int32) : Appends (Buffer.putWords ws) (Writer.words ws) := by
  have hentries : ws.mapM (fun w => (.ok (Writer.i32 w) : Except Error Bytes)) =
      .ok (ws.map Writer.i32) := List.mapM_pure
  rw [Writer.words, Writer.list, hentries]
  exact (Appends.length ws.length).andThen (.entries ws)

/-- A type index is appended as a truth value and a number. -/
theorem Appends.typeIndex (t : TypeIndex) : Appends (Buffer.putTypeIndex t) (.ok t.bytes) := by
  cases t with
  | type index =>
      exact (Appends.append (Writer.bool false)).andThen (.append (Writer.i32 index))
  | generic key => exact (Appends.append (Writer.bool true)).andThen (.append (Writer.i32 key))

/-- An item is appended as it is encoded. -/
theorem Appends.put (item : Item) : Appends (Buffer.put item) item.encode := by
  cases item with
  | length n => exact .length n
  | shortLength n => exact .shortLength n
  | text t => exact .block (Writer.utf8 t)
  | words ws => exact .words ws
  | block content => exact .block content
  | typeIndex t => exact .typeIndex t
  | u8 | bool | i16 | u16 | i32 | u32 | bytes => exact .append _

/-- An item that can be encoded is appended in its encoding. -/
theorem put_of_ok (h : item.encode = .ok bytes) (buffer : Buffer) :
    Buffer.put item buffer = .ok () ⟨buffer.written ++ bytes⟩ := by
  rw [Appends.put item buffer, h]

/-- An item that cannot be encoded leaves the buffer as it was. -/
theorem put_of_error (h : item.encode = .error e) (buffer : Buffer) :
    Buffer.put item buffer = .error e buffer := by
  rw [Appends.put item buffer, h]

/-! ## Runs of items -/

variable {items : List Item} {more : Bytes}

/-- The requests of the items read them one after the other from the bytes, whatever follows, and
need all of the bytes. -/
structure ReadsBack (items : List Item) (bytes : Bytes) : Prop where
  answers : ∀ rest position,
    (history Request.read (items.map Item.request) ⟨bytes ++ rest, position⟩).map Step.answer? =
      items.map some
  ends : ∀ rest position,
    stateAfterAll Request.read (items.map Item.request) ⟨bytes ++ rest, position⟩ =
      ⟨rest, position + bytes.length⟩

theorem ReadsBack.nil : ReadsBack [] [] := ⟨fun _ _ => rfl, fun _ _ => rfl⟩

/-- What is read back from some bytes is read back behind a further item, too. -/
theorem ReadsBack.cons (hfirst : item.encode = .ok bytes) (hrest : ReadsBack items more) :
    ReadsBack (item :: items) (bytes ++ more) := by
  have hread := Reads.request hfirst
  refine ⟨fun rest position => ?_, fun rest position => ?_⟩
  · rw [List.map_cons, history, List.append_assoc, hread, List.map_cons, List.map_cons, stateAfter,
      hrest.answers]
    rfl
  · rw [List.map_cons, stateAfterAll, List.append_assoc, hread, stateAfter, hrest.ends,
      List.length_append, Nat.add_assoc]

/-- What a run of items adds to a buffer is read back as those of them that were written. -/
theorem readsBack_successes (items : List Item) (buffer : Buffer) :
    ∃ bytes, stateAfterAll Buffer.put items buffer = ⟨buffer.written ++ bytes⟩ ∧
      ReadsBack (successes Buffer.put items buffer) bytes := by
  induction items generalizing buffer with
  | nil => exact ⟨[], by rw [List.append_nil]; rfl, .nil⟩
  | cons item items ih =>
      rw [stateAfterAll, successes, history]
      cases hwritten : item.encode with
      | error e =>
          -- the buffer is the old one, and the item is not among those that were written
          rw [put_of_error hwritten]
          exact ih buffer
      | ok bytes =>
          rw [put_of_ok hwritten]
          obtain ⟨more, hafter, hreads⟩ := ih ⟨buffer.written ++ bytes⟩
          refine ⟨bytes ++ more, ?_, .cons hwritten hreads⟩
          rw [← List.append_assoc]
          exact hafter

/-- A step that puts an item succeeds exactly if the item fits, and if not it leaves the buffer. -/
theorem put_step {buffer : Buffer} {s : Step Item Error Buffer Unit}
    (h : s ∈ history Buffer.put items buffer) :
    (s.succeeded ↔ s.command.Fits) ∧ (¬ s.succeeded → s.after = s.before) := by
  have hresult := result_of_mem_history h
  rw [← Item.encode_eq_ok_iff, Step.succeeded, Step.answer?, Step.after, hresult]
  cases hwritten : s.command.encode with
  | error e =>
      rw [put_of_error hwritten]
      refine ⟨?_, fun _ => rfl⟩
      simp [answerOf?]
  | ok bytes =>
      rw [put_of_ok hwritten]
      simp [answerOf?]

/-! ## Runs of requests -/

/-- The cursors of a run of requests follow each other. -/
theorem precedes_history (requests : List Request) (c : Cursor) :
    (c :: (history Request.read requests c).map Step.after).Pairwise Cursor.Precedes :=
  history_pairwise (fun h h' => h.trans h') (fun r c => Advances.request r c) requests c

/-- A step that reads moves the cursor forward within the bytes, whether it succeeds or fails. -/
theorem read_step {bytes : Bytes} {requests : List Request} {s : Step Request Error Cursor Item}
    (h : s ∈ history Request.read requests (.start bytes)) :
    s.before.position ≤ s.after.position ∧ s.after.position ≤ bytes.length ∧
      s.after.rest = bytes.drop s.after.position := by
  have hmoved : s.before.Precedes s.after := by
    rw [Step.after, result_of_mem_history h]
    exact Advances.request s.command s.before
  have hstart : (Cursor.start bytes).Precedes s.after :=
    (List.pairwise_cons.1 (precedes_history requests (.start bytes))).1 s.after
      (List.mem_map_of_mem h)
  exact ⟨hmoved.position_le, hstart.of_start⟩

/-! ## Both directions -/

/-- An item is refused exactly if its length does not fit in its prefix, and then the buffer stays
as it was. What a run of items leaves in an empty buffer is read back by the requests of those that
were written: each gets its item, in order, and nothing is left. And a run of requests over any
bytes only moves the cursor forward, up to the end of the bytes at most, whether its steps succeed
or fail. -/
theorem sequences_faithful :
    (∀ items : List Item,
      (∀ s ∈ history Buffer.put items {},
        (s.succeeded ↔ s.command.Fits) ∧ (¬ s.succeeded → s.after = s.before)) ∧
      ∃ bytes, stateAfterAll Buffer.put items {} = ⟨bytes⟩ ∧
        (history Request.read ((successes Buffer.put items {}).map Item.request)
          (.start bytes)).map Step.answer? = (successes Buffer.put items {}).map some ∧
        stateAfterAll Request.read ((successes Buffer.put items {}).map Item.request)
          (.start bytes) = ⟨[], bytes.length⟩) ∧
    ∀ (bytes : Bytes) (requests : List Request),
      ((history Request.read requests (.start bytes)).map (·.after.position)).Pairwise (· ≤ ·) ∧
      ∀ s ∈ history Request.read requests (.start bytes),
        s.before.position ≤ s.after.position ∧ s.after.position ≤ bytes.length ∧
          s.after.rest = bytes.drop s.after.position := by
  refine ⟨fun items => ⟨fun s hs => put_step hs, ?_⟩, fun bytes requests => ⟨?_, fun s hs => ?_⟩⟩
  · obtain ⟨bytes, hafter, hreads⟩ := readsBack_successes items {}
    have hanswers := hreads.answers [] 0
    have hends := hreads.ends [] 0
    rw [List.append_nil] at hanswers hends
    rw [Nat.zero_add] at hends
    exact ⟨bytes, hafter, hanswers, hends⟩
  · have hcursors := (List.pairwise_cons.1 (precedes_history requests (.start bytes))).2
    rw [List.pairwise_map] at hcursors ⊢
    exact hcursors.imp Cursor.Precedes.position_le
  · exact read_step hs

/-- A short length that does not fit stands between items that do. The first of three requests fails
at a text that is not UTF-8, behind the bytes of the text. -/
theorem sequences_faithful_mixed :
    (∃ s ∈ history Buffer.put [.typeIndex (.generic 7), .shortLength 40000, .words [-1, 2]] {},
      s.command = .shortLength 40000 ∧ ¬ s.succeeded ∧ s.after = s.before) ∧
    successes Buffer.put [.typeIndex (.generic 7), .shortLength 40000, .words [-1, 2]] {} =
      [.typeIndex (.generic 7), .words [-1, 2]] ∧
    ∃ r ∈ history Request.read [.text, .u16, .u8] (.start [1, 0, 0, 0, 255, 6]),
      r.command = .text ∧ ¬ r.succeeded ∧ r.before.position = 0 ∧ r.after.position = 5 ∧
        r.after.rest = [1, 0, 0, 0, 255, 6].drop r.after.position := by
  obtain ⟨hput, hread⟩ := sequences_faithful
  refine ⟨⟨_, List.mem_cons_of_mem _ (List.mem_cons_self ..), rfl, by decide, ?_⟩, by decide,
    ⟨_, List.mem_cons_self .., rfl, by decide, rfl, rfl, ?_⟩⟩
  · exact ((hput [.typeIndex (.generic 7), .shortLength 40000, .words [-1, 2]]).1 _
      (List.mem_cons_of_mem _ (List.mem_cons_self ..))).2 (by decide)
  · exact ((hread [1, 0, 0, 0, 255, 6] [.text, .u16, .u8]).2 _ (List.mem_cons_self ..)).2.2

end VaultKernel.Wire
