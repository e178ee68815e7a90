import VaultKernel.Proofs.Image.RoundTrip

/-!
# Method blocks and bodies that were written can be read

A method block tells the size of its body before the signature, and a body ends with a table of
protected zones that is written only if there are some. So the bytes after a body without zones may
be taken for its zones. `decode_encode_bodies` is the statement to read first: this happens only if
they begin with `zoneMagic`, and nothing else that follows a body or a block changes what is read.
`Code.decode_encode_zoneless` says what is read then.

The tables of a body are followed by a step that looks ahead, which takes no fixed bytes. `Leads`
keeps what a reader still does after the bytes it takes.
-/

namespace VaultKernel

open Wire

namespace Wire

variable {α β : Type}

/-- The reader takes these bytes, whatever follows them, and goes on as the other one. -/
def Leads (reader : Reader α) (bytes : Bytes) (next : Reader α) : Prop :=
  ∀ rest position, reader ⟨bytes ++ rest, position⟩ = next ⟨rest, position + bytes.length⟩

/-- A reader in front of others leads to them. -/
theorem Reads.leads {reader : Reader α} {next : α → Reader β} {bytes : Bytes} {a : α}
    (hfirst : Reads reader bytes a) : Leads (reader >>= next) bytes (next a) :=
  fun rest position => bind_of_eq_ok (hfirst rest position) rfl

/-- Readers that lead on may follow each other. -/
theorem Leads.trans {reader next last : Reader α} {bytes more : Bytes}
    (hfirst : Leads reader bytes next) (hnext : Leads next more last) :
    Leads reader (bytes ++ more) last := by
  intro rest position
  rw [List.append_assoc, hfirst, hnext, List.length_append, Nat.add_assoc]

/-- What a reader leads to takes the rest. -/
theorem Leads.reads {reader next : Reader α} {bytes more : Bytes} {a : α}
    (hfirst : Leads reader bytes next) (hnext : Reads next more a) :
    Reads reader (bytes ++ more) a :=
  show Leads reader (bytes ++ more) (pure a) from hfirst.trans hnext

/-! ## Looking ahead -/

/-- A reader that is tried first finds the value in the bytes and leaves them. -/
theorem Reads.peek {reader : Reader α} {next : α → Reader β} {bytes more : Bytes} {a : α} {b : β}
    (hreader : Reads reader bytes a) (hnext : Reads (next a) (bytes ++ more) b) :
    Reads (Reader.peek reader >>= next) (bytes ++ more) b := by
  intro rest position
  have hpeek : Reader.peek reader ⟨bytes ++ more ++ rest, position⟩ =
      .ok a ⟨bytes ++ more ++ rest, position⟩ := by
    rw [Reader.peek, List.append_assoc, hreader]
  exact bind_of_eq_ok hpeek (hnext rest position)

/-- Two bytes are what is written for the word that they are read as. -/
theorem i16_pair (x y : UInt8) (rest : Bytes) (position : Nat) :
    ∃ v, Writer.i16 v = [x, y] ∧
      Reader.i16 ⟨x :: y :: rest, position⟩ = .ok v ⟨rest, position + 2⟩ := by
  have hx := x.toNat_lt
  have hy := y.toNat_lt
  refine ⟨(UInt16.ofNat (Word.ofBytes [x, y])).toInt16, ?_, rfl⟩
  have hword : (UInt16.ofNat (Word.ofBytes [x, y])).toNat = x.toNat + 256 * y.toNat := by
    simp only [Word.ofBytes, UInt16.toNat_ofNat']
    omega
  have hlow : (x.toNat + 256 * y.toNat) % 256 = x.toNat := by omega
  have hhigh : (x.toNat + 256 * y.toNat) / 256 % 256 = y.toNat := by omega
  rw [Writer.i16, UInt16.toUInt16_toInt16, Writer.u16, hword]
  simp only [Word.toBytes, hlow, hhigh, UInt8.ofNat_toNat]

end Wire

namespace Image

/-! ## Method blocks -/

/-- A method block is read back. -/
theorem Mirrors.method (m : Method) : Mirrors Method.read 0 m m.encode := by
  intro bytes hwritten
  obtain ⟨size, hsize, hrest⟩ := bind_eq_ok.1 hwritten
  obtain ⟨arguments, harguments, heq⟩ := bind_eq_ok.1 hrest
  cases pure_eq_ok.1 heq
  have hsizeRead := (Mirrors.length _ size hsize).2
  have hargumentsRead := (Mirrors.arguments _ arguments harguments).2
  refine ⟨by omega, ?_⟩
  simp only [List.append_assoc]
  refine (Reads.i32 m.name).bind ((Reads.i16 m.flags).bind (hsizeRead.bind ?_))
  refine (Reads.u8 m.stackSize).bind ((Reads.u8 m.locals).bind ?_)
  exact (Reads.typeIndex m.returnType).bind (hargumentsRead.bind ((Reads.bytes m.body).map
    fun body => ({ m with body } : Method)))

/-! ## Tables of a body -/

/-- Instructions are read back. -/
theorem Mirrors.instructions (ws : List UInt32) :
    Mirrors (Reader.list 4 Reader.u32) 4 ws (Writer.list (fun w => .ok (Writer.u32 w)) ws) :=
  Mirrors.plainList (by decide) (fun w _ => by simp) fun w _ => Reads.u32 w

/-- A label is read back. -/
theorem Reads.label (l : Label) : Reads Label.read l.bytes l := by
  rw [Label.bytes, List.append_assoc]
  exact (Reads.i32 l.key).bind ((Reads.i32 l.position).bind
    ((Reads.u16 l.opcode).map (Label.mk l.key l.position)))

/-- A table of labels is read back. -/
theorem Mirrors.labelMap (ls : List Label) :
    Mirrors (Reader.list 10 Label.read) 4 ls (Writer.list (fun l => .ok (Label.bytes l)) ls) :=
  Mirrors.plainList (by decide) (fun l _ => by simp [Label.bytes]) fun l _ => Reads.label l

/-- A protected zone is read back. -/
theorem Mirrors.zone (z : Zone) : Mirrors Zone.read 28 z z.bytes := by
  intro bytes hwritten
  obtain ⟨filters, hfilters, hrest⟩ := bind_eq_ok.1 hwritten
  obtain ⟨addresses, haddresses, hrest⟩ := bind_eq_ok.1 hrest
  obtain ⟨types, htypes, hrest⟩ := bind_eq_ok.1 hrest
  obtain ⟨kinds, hkinds, heq⟩ := bind_eq_ok.1 hrest
  cases pure_eq_ok.1 heq
  obtain ⟨hfiltersSize, hfiltersRead⟩ := Mirrors.words _ filters hfilters
  obtain ⟨haddressesSize, haddressesRead⟩ := Mirrors.words _ addresses haddresses
  obtain ⟨htypesSize, htypesRead⟩ := Mirrors.words _ types htypes
  obtain ⟨hkindsSize, hkindsRead⟩ := Mirrors.block _ kinds hkinds
  refine ⟨by simp only [List.length_append, length_i32]; omega, ?_⟩
  simp only [List.append_assoc]
  refine (Reads.i32 z.start).bind ((Reads.i32 z.tryEnd).bind ((Reads.i32 z.stop).bind ?_))
  refine hfiltersRead.bind (haddressesRead.bind (htypesRead.bind ?_))
  exact hkindsRead.map (Zone.mk z.start z.tryEnd z.stop z.filters z.catchAddresses z.catchTypes)

/-- A body is its tables and then its zones; what follows the tables is left to `readZones`. -/
theorem Code.leads_of_encode {c : Code} {bytes : Bytes} (hwritten : c.encode = .ok bytes) :
    ∃ tables zones, bytes = tables ++ zones ∧ Code.zoneBytes c.zones = .ok zones ∧
      Leads Code.read tables (do return { c with zones := ← Code.readZones }) := by
  obtain ⟨instructions, hinstructions, hrest⟩ := bind_eq_ok.1 hwritten
  obtain ⟨labels, hlabels, hrest⟩ := bind_eq_ok.1 hrest
  obtain ⟨labelMap, hlabelMap, hrest⟩ := bind_eq_ok.1 hrest
  obtain ⟨zones, hzones, heq⟩ := bind_eq_ok.1 hrest
  refine ⟨instructions ++ labels ++ labelMap, zones, (pure_eq_ok.1 heq).symm, hzones, ?_⟩
  have hinstructionsRead := (Mirrors.instructions _ instructions hinstructions).2
  have hlabelsRead := (Mirrors.words _ labels hlabels).2
  have hlabelMapRead := (Mirrors.labelMap _ labelMap hlabelMap).2
  exact (hinstructionsRead.leads.trans hlabelsRead.leads).trans hlabelMapRead.leads

/-! ## Zones -/

/-- Zones that were written are found behind their magic. -/
theorem Reads.zones {zones : List Zone} {bytes : Bytes} (hzones : zones ≠ [])
    (hwritten : Code.zoneBytes zones = .ok bytes) : Reads Code.readZones bytes zones := by
  rw [Code.zoneBytes, if_neg (by simpa using hzones)] at hwritten
  obtain ⟨table, htable, heq⟩ := bind_eq_ok.1 hwritten
  cases pure_eq_ok.1 heq
  have htableRead := (Mirrors.list (by decide) (fun z _ => Mirrors.zone z) table htable).2
  have hmagic := Reads.i16 Code.zoneMagic
  intro rest position
  have hsize : ¬ Cursor.remaining ⟨Writer.i16 Code.zoneMagic ++ table ++ rest, position⟩ < 2 := by
    simp only [Cursor.remaining, List.length_append, length_i16]
    omega
  rw [Code.readZones, get_bind, if_neg hsize]
  refine hmagic.peek ?_ rest position
  rw [if_pos rfl]
  exact hmagic.bind htableRead

/-- Bytes that do not begin with the magic are left where they are. -/
theorem readZones_foreign {tail : Bytes}
    (htail : tail.length < 2 ∨ ¬ Writer.i16 Code.zoneMagic <+: tail) (position : Nat) :
    Code.readZones ⟨tail, position⟩ = .ok [] ⟨tail, position⟩ := by
  rw [Code.readZones, get_bind]
  split
  · rfl
  · next hlong =>
      replace htail : ¬ Writer.i16 Code.zoneMagic <+: tail := htail.resolve_left hlong
      obtain ⟨x, y, rest, rfl⟩ : ∃ x y rest, tail = x :: y :: rest := by
        match tail, hlong with
        | x :: y :: rest, _ => exact ⟨x, y, rest, rfl⟩
        | [x], hlong => exact absurd (by simp [Cursor.remaining]) hlong
        | [], hlong => exact absurd (by simp [Cursor.remaining]) hlong
      obtain ⟨v, hv, hread⟩ := i16_pair x y rest position
      have hpeek : Reader.peek Reader.i16 ⟨x :: y :: rest, position⟩ =
          .ok v ⟨x :: y :: rest, position⟩ := by
        rw [Reader.peek, hread]
      have hforeign : v ≠ Code.zoneMagic := by
        rintro rfl
        exact htail ⟨rest, by rw [hv]; rfl⟩
      refine bind_of_eq_ok hpeek ?_
      rw [if_neg hforeign]
      rfl

/-! ## Bodies -/

/-- After a body without zones, what follows it decides which zones are read. -/
theorem Code.decode_encode_zoneless {c : Code} {bytes : Bytes} (hzones : c.zones = [])
    (hwritten : c.encode = .ok bytes) (tail : Bytes) :
    Code.decode (bytes ++ tail) = match Code.readZones ⟨tail, bytes.length⟩ with
      | .ok zones _ => .ok { c with zones }
      | .error e _ => .error e := by
  obtain ⟨tables, zones, rfl, hnone, hleads⟩ := Code.leads_of_encode hwritten
  rw [hzones] at hnone
  cases hnone
  rw [List.append_nil, Code.decode, Reader.decode, Cursor.start, hleads, Nat.zero_add]
  cases hread : Code.readZones ⟨tail, tables.length⟩ with
  | ok zones c' => rw [bind_of_eq_ok hread rfl]; rfl
  | error e c' => rw [bind_of_eq_error hread]

/-- A body with zones is read back, whatever follows it. -/
theorem Code.decode_encode_zones {c : Code} {bytes : Bytes} (hzones : c.zones ≠ [])
    (hwritten : c.encode = .ok bytes) (tail : Bytes) : Code.decode (bytes ++ tail) = .ok c := by
  obtain ⟨tables, zones, rfl, hsome, hleads⟩ := Code.leads_of_encode hwritten
  have hread := (Reads.zones hzones hsome).map fun zones => ({ c with zones } : Code)
  exact (hleads.reads hread).decode tail

/-- A body that was written is read back from its bytes and whatever follows them, if it has a zone
or what follows does not begin with the magic; a method is read back whatever follows it. -/
theorem decode_encode_bodies :
    (∀ (c : Code) (bytes tail : Bytes), c.encode = .ok bytes →
      (c.zones ≠ [] ∨ tail.length < 2 ∨ ¬ Writer.i16 Code.zoneMagic <+: tail) →
      Code.decode (bytes ++ tail) = .ok c) ∧
    ∀ (m : Method) (bytes tail : Bytes), m.encode = .ok bytes →
      Method.decode (bytes ++ tail) = .ok m := by
  refine ⟨fun c bytes tail hwritten htail => ?_, fun m bytes tail hwritten => ?_⟩
  · by_cases hzones : c.zones = []
    · have hforeign := htail.resolve_left (absurd hzones)
      rw [Code.decode_encode_zoneless hzones hwritten, readZones_foreign hforeign]
      exact congrArg (fun zones => Except.ok { c with zones }) hzones.symm
    · exact Code.decode_encode_zones hzones hwritten tail
  · exact (Mirrors.method m bytes hwritten).2.decode tail

/-- A body with a zone before the magic, one without before other bytes, and a method. The magic
alone behind a body without zones is refused for want of a count. -/
theorem decode_encode_bodies_small : ∃ (zoned bare : Code) (m : Method) (b₁ b₂ b₃ : Bytes),
    zoned.zones.length = 1 ∧ zoned.encode = .ok b₁ ∧
    Code.decode (b₁ ++ Writer.i16 Code.zoneMagic) = .ok zoned ∧
    bare.zones = [] ∧ bare.encode = .ok b₂ ∧ Code.decode (b₂ ++ [1, 1]) = .ok bare ∧
    Code.decode (b₂ ++ Writer.i16 Code.zoneMagic) = .error (.unexpectedEnd 32 4) ∧
    m.arguments.length = 1 ∧ m.encode = .ok b₃ ∧ Method.decode (b₃ ++ [7]) = .ok m :=
  ⟨⟨[7, 8], [0], [⟨0, 1, 8⟩], [⟨0, 1, 2, [], [3], [0], [1]⟩]⟩, ⟨[7], [0], [⟨0, 0, 7⟩], []⟩,
    ⟨3, 4, 8, 1, .type 0, [⟨1, .generic 0⟩], [1, 2, 3]⟩, _, _, _, rfl, rfl,
    decode_encode_bodies.1 _ _ _ rfl (.inl (by decide)), rfl, rfl,
    decode_encode_bodies.1 _ _ _ rfl (.inr (.inr (by decide))), rfl, rfl, rfl,
    decode_encode_bodies.2 _ _ _ rfl⟩

end Image

end VaultKernel
