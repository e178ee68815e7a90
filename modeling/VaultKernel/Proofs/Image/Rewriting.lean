import VaultKernel.Proofs.Image.Extents
import VaultKernel.Proofs.Image.RoundTrip
import VaultKernel.Proofs.Wire.Rewriting

/-!
# Writing images that were read

More bytes are read than are ever written: truth values other than zero and one, a second code for
nothing, numbers with signs and zeros in front, and bytes that are left over. For each part of an
image one lemma says that what was read can be written, in no more bytes. `encode_of_decode` puts
the parts together: the image that was read is written without fail, and read again.
-/

namespace VaultKernel

open Wire Image

variable {c c' : Cursor}

/-! ## Constants -/

namespace Constant

/-- A signed number that is read is within the width, and its decimal text is no longer. -/
theorem integer_of_signed? {width : Nat} {text : String} {z : Int}
    (h : signed? width text = some z) :
    -((Nat.pow 2 (width - 1) : Nat) : Int) ≤ z ∧ z < (Nat.pow 2 (width - 1) : Nat) ∧
      (Text.integer z).utf8ByteSize ≤ text.utf8ByteSize := by
  have hrange := (Option.filter_eq_some_iff.1 h).2
  have hpos : 0 < Nat.pow 2 (width - 1) := Nat.two_pow_pos _
  simp only [Bool.and_eq_true, decide_eq_true_eq] at hrange
  exact ⟨hrange.1, by omega, Text.integer_utf8_le h⟩

/-- An unsigned number that is read is within the width, and its decimal text is no longer. -/
theorem natural_of_unsigned? {width : Nat} {text : String} {n : Nat}
    (h : unsigned? width text = some n) :
    n < Nat.pow 2 width ∧ (Text.natural n).utf8ByteSize ≤ text.utf8ByteSize := by
  have hrange := (Option.filter_eq_some_iff.1 h).2
  have hpos : 0 < Nat.pow 2 width := Nat.two_pow_pos _
  simp only [decide_eq_true_eq] at hrange
  exact ⟨by omega, Text.natural_utf8_le h⟩

/-- What is written for a constant is no longer than the text that it was read from. -/
theorem utf8_text_le {code : TypeCode} {text : String} {k : Constant}
    (hread : read? code text = some k) (hk : k.isFloating = false) :
    k.text.utf8ByteSize ≤ text.utf8ByteSize := by
  cases code with
  | none | void =>
      cases hread
      exact Nat.zero_le _
  | boolean =>
      obtain ⟨b, hb, rfl⟩ := Option.map_eq_some_iff.1 hread
      unfold bool? at hb
      split at hb
      · next htext =>
          cases hb
          rw [htext]
          exact Nat.le_refl _
      · split at hb
        · next htext =>
            cases hb
            rw [htext]
            exact Nat.le_refl _
        · cases hb
  | char =>
      obtain ⟨only, honly, rfl⟩ := Option.map_eq_some_iff.1 hread
      unfold onlyChar? at honly
      split at honly
      · next htext =>
          cases honly
          exact Nat.le_of_eq (by rw [Constant.text, ← htext, String.ofList_toList])
      · cases honly
  | i1 =>
      obtain ⟨z, hz, rfl⟩ := Option.map_eq_some_iff.1 hread
      obtain ⟨hlow, hhigh, hsize⟩ := integer_of_signed? hz
      rwa [Constant.text, Int8.toInt_ofInt_of_le hlow hhigh]
  | u1 =>
      obtain ⟨n, hn, rfl⟩ := Option.map_eq_some_iff.1 hread
      obtain ⟨hlt, hsize⟩ := natural_of_unsigned? hn
      rwa [Constant.text, UInt8.toNat_ofNat_of_lt' hlt]
  | i2 =>
      obtain ⟨z, hz, rfl⟩ := Option.map_eq_some_iff.1 hread
      obtain ⟨hlow, hhigh, hsize⟩ := integer_of_signed? hz
      rwa [Constant.text, Int16.toInt_ofInt_of_le hlow hhigh]
  | u2 =>
      obtain ⟨n, hn, rfl⟩ := Option.map_eq_some_iff.1 hread
      obtain ⟨hlt, hsize⟩ := natural_of_unsigned? hn
      rwa [Constant.text, UInt16.toNat_ofNat_of_lt' hlt]
  | i4 =>
      obtain ⟨z, hz, rfl⟩ := Option.map_eq_some_iff.1 hread
      obtain ⟨hlow, hhigh, hsize⟩ := integer_of_signed? hz
      rwa [Constant.text, Int32.toInt_ofInt_of_le hlow hhigh]
  | u4 =>
      obtain ⟨n, hn, rfl⟩ := Option.map_eq_some_iff.1 hread
      obtain ⟨hlt, hsize⟩ := natural_of_unsigned? hn
      rwa [Constant.text, UInt32.toNat_ofNat_of_lt' hlt]
  | i8 =>
      obtain ⟨z, hz, rfl⟩ := Option.map_eq_some_iff.1 hread
      obtain ⟨hlow, hhigh, hsize⟩ := integer_of_signed? hz
      rwa [Constant.text, Int64.toInt_ofInt_of_le hlow hhigh]
  | u8 =>
      obtain ⟨n, hn, rfl⟩ := Option.map_eq_some_iff.1 hread
      obtain ⟨hlt, hsize⟩ := natural_of_unsigned? hn
      rwa [Constant.text, UInt64.toNat_ofNat_of_lt' hlt]
  | r2 | r4 | r8 | r16 =>
      obtain ⟨bits, _, rfl⟩ := Option.map_eq_some_iff.1 hread
      cases hk
  | string =>
      cases hread
      exact Nat.le_refl _
  | object | reference | array | token | raw | function => cases hread

/-- A constant that is read from a table is read from its text. -/
theorem read?_of_read {code : TypeCode} {name text : String} {k : Constant}
    (h : read code name text = .ok k) : read? code text = some k := by
  rw [read] at h
  split at h
  · next hread =>
      cases h
      exact hread
  · cases h

end Constant

/-- A value that was there already takes no bytes. -/
theorem liftExcept_eq_ok {α : Type} {x : Except Wire.Error α} {a : α}
    (h : ConstantEntry.liftExcept x c = .ok a c') : x = .ok a ∧ c' = c := by
  cases x with
  | ok b =>
      cases h
      exact ⟨rfl, rfl⟩
  | error e => cases h

/-- A constant that was read can be written, unless it is a floating point number. -/
theorem Rewrites.constantEntry {e : ConstantEntry} (he : e.value.isFloating = false) :
    Rewrites ConstantEntry.reader e e.bytes := by
  intro c c' hrun
  obtain ⟨number, c₁, hnumber, hrun⟩ := bind_ok_cases hrun
  obtain ⟨code, c₂, hcode, hrun⟩ := bind_ok_cases hrun
  obtain ⟨name, c₃, hname, hrun⟩ := bind_ok_cases hrun
  obtain ⟨text, c₄, htext, hrun⟩ := bind_ok_cases hrun
  obtain ⟨value, c₅, hvalue, heq⟩ := bind_ok_cases hrun
  cases heq
  obtain ⟨_, rfl⟩ := liftExcept_eq_ok hcode
  obtain ⟨hread, rfl⟩ := liftExcept_eq_ok hvalue
  have hnumberSize := Definite.i32.size_le hnumber
  obtain ⟨nameBytes, hnameBytes, hnameSize⟩ := Rewrites.text name _ _ hname
  obtain ⟨textBytes, htextBytes, htextSize⟩ := Rewrites.text text _ _ htext
  have hle : (Writer.utf8 value.text).length ≤ (Writer.utf8 text).length := by
    rw [length_utf8, length_utf8]
    exact Constant.utf8_text_le (Constant.read?_of_read hread) he
  obtain ⟨valueBytes, hvalueBytes, hvalueSize⟩ := block_of_length_le htextBytes hle
  refine ⟨_, bind_eq_ok.2 ⟨nameBytes, hnameBytes, bind_eq_ok.2 ⟨valueBytes, hvalueBytes, rfl⟩⟩, ?_⟩
  simp only [List.length_append, length_i32]
  omega

/-- A block of constants that was read can be written in no more bytes. -/
theorem encodeAll_of_decodeAll {entries : List ConstantEntry} {block : Bytes}
    (hentries : ∀ e ∈ entries, e.value.isFloating = false)
    (hdecode : ConstantEntry.decodeAll block = .ok entries) :
    ∃ out, ConstantEntry.encodeAll entries = .ok out ∧ out.length ≤ block.length :=
  (Rewrites.list fun e he => Rewrites.constantEntry (hentries e he)).decode hdecode

/-! ## Classes -/

/-- A list of arguments that was read can be written. -/
theorem Rewrites.arguments (args : List Argument) :
    Rewrites Argument.readList args (Argument.listBytes args) :=
  .plainList (Definite.i32.bind fun _ => Definite.typeIndex.map _)
    fun a _ => by simp [Argument.bytes, TypeIndex.size]

/-- A list of fields that was read can be written. -/
theorem Rewrites.fields (fields : List Image.Field) :
    Rewrites (Reader.list (4 + TypeIndex.size + 2) Image.Field.read) fields
      (Writer.list (fun f => .ok (Image.Field.bytes f)) fields) :=
  .plainList (Definite.i32.bind fun _ => Definite.typeIndex.bind fun _ => Definite.i16.map _)
    fun f _ => by simp [Image.Field.bytes, TypeIndex.size]

/-- A class body that was read can be written. -/
theorem Rewrites.classBody (b : ClassBody) : Rewrites ClassBody.read b b.encode := by
  intro c c' hrun
  obtain ⟨name, c₁, hname, hrun⟩ := bind_ok_cases hrun
  obtain ⟨flags, c₂, hflags, hrun⟩ := bind_ok_cases hrun
  obtain ⟨count, c₃, hcount, hrun⟩ := bind_ok_cases hrun
  obtain ⟨parents, c₄, hparents, hrun⟩ := bind_ok_cases hrun
  obtain ⟨methods, c₅, hmethods, hrun⟩ := bind_ok_cases hrun
  obtain ⟨fields, c₆, hfields, heq⟩ := bind_ok_cases hrun
  cases heq
  have hnameSize := Definite.i32.size_le hname
  have hflagsSize := Definite.i16.size_le hflags
  have hentry : ∀ p ∈ parents, Rewrites Reader.i32 p (.ok (Writer.i32 p)) :=
    fun p _ c c' hrun => ⟨_, rfl, by rw [length_i32]; exact Definite.i32.size_le hrun⟩
  obtain ⟨rfl, written, hwritten, hparentsSize⟩ := Rewrites.times hentry hparents
  have hflat : parents.flatMap Writer.i32 = written.flatten := by
    cases hwritten.symm.trans List.mapM_pure
    rw [List.flatMap_def]
  obtain ⟨countBytes, hcountBytes, hcountSize⟩ :=
    Rewrites.shortLength _ _ _ (shortCount_eq_ok hcount)
  obtain ⟨methodBytes, hmethodBytes, hmethodsSize⟩ :=
    Rewrites.list (fun m _ => Rewrites.block m) _ _ hmethods
  obtain ⟨fieldBytes, hfieldBytes, hfieldsSize⟩ := Rewrites.fields fields _ _ hfields
  refine ⟨_, bind_eq_ok.2 ⟨countBytes, hcountBytes, bind_eq_ok.2 ⟨methodBytes, hmethodBytes,
    bind_eq_ok.2 ⟨fieldBytes, hfieldBytes, rfl⟩⟩⟩, ?_⟩
  simp only [List.length_append, length_i32, length_i16, hflat]
  omega

/-- A class body that decodes is written in no more bytes. -/
theorem encode_of_decode_classBody {b : ClassBody} {block : Bytes}
    (hdecode : ClassBody.decode block = .ok b) :
    ∃ out, b.encode = .ok out ∧ out.length ≤ block.length := by
  obtain ⟨c, hrun⟩ := decode_eq_ok hdecode
  obtain ⟨body, c₁, hread, hrest⟩ := bind_ok_cases hrun
  obtain ⟨_, c₂, _, heq⟩ := bind_ok_cases hrest
  cases heq
  obtain ⟨out, hencoded, hsize⟩ := Rewrites.classBody _ _ _ hread
  exact ⟨out, hencoded, Nat.le_trans (Nat.le_add_right _ _) hsize⟩

/-- A class block that was read can be written. -/
theorem Rewrites.classBlock (b : ClassBody) : Rewrites ClassBody.readBlock b b.blockBytes := by
  intro c c' hrun
  obtain ⟨content, c₁, hblock, hlift⟩ := bind_ok_cases hrun
  obtain ⟨hdecode, rfl⟩ := liftExcept_eq_ok hlift
  obtain ⟨out, hencoded, hle⟩ := encode_of_decode_classBody hdecode
  obtain ⟨written, hwritten, hsize⟩ := Rewrites.block content _ _ hblock
  obtain ⟨written', hwritten', hsize'⟩ := block_of_length_le hwritten hle
  exact ⟨written', bind_eq_ok.2 ⟨out, hencoded, hwritten'⟩, by omega⟩

/-! ## Tables -/

/-- A string entry that was read can be written. -/
theorem Rewrites.stringEntry (e : StringEntry) : Rewrites StringEntry.read e e.bytes := by
  intro c c' hrun
  obtain ⟨index, c₁, hindex, hrun⟩ := bind_ok_cases hrun
  obtain ⟨text, c₂, htext, heq⟩ := bind_ok_cases hrun
  cases heq
  have hindexSize := Definite.i32.size_le hindex
  obtain ⟨textBytes, htextBytes, htextSize⟩ := Rewrites.text text _ _ htext
  refine ⟨_, bind_eq_ok.2 ⟨textBytes, htextBytes, rfl⟩, ?_⟩
  simp only [List.length_append, length_i32]
  omega

/-- A type name entry that was read can be written. -/
theorem Rewrites.typeNameEntry (e : TypeNameEntry) : Rewrites TypeNameEntry.read e e.bytes := by
  intro c c' hrun
  obtain ⟨index, c₁, hindex, hrun⟩ := bind_ok_cases hrun
  obtain ⟨assembly, c₂, hassembly, hrun⟩ := bind_ok_cases hrun
  obtain ⟨space, c₃, hspace, hrun⟩ := bind_ok_cases hrun
  obtain ⟨name, c₄, hname, heq⟩ := bind_ok_cases hrun
  cases heq
  have hindexSize := Definite.i32.size_le hindex
  obtain ⟨assemblyBytes, hassemblyBytes, hassemblySize⟩ := Rewrites.text assembly _ _ hassembly
  obtain ⟨spaceBytes, hspaceBytes, hspaceSize⟩ := Rewrites.text space _ _ hspace
  obtain ⟨nameBytes, hnameBytes, hnameSize⟩ := Rewrites.text name _ _ hname
  refine ⟨_, bind_eq_ok.2 ⟨assemblyBytes, hassemblyBytes, bind_eq_ok.2 ⟨spaceBytes, hspaceBytes,
    bind_eq_ok.2 ⟨nameBytes, hnameBytes, rfl⟩⟩⟩, ?_⟩
  simp only [List.length_append, length_i32]
  omega

/-- A field name entry that was read can be written. -/
theorem Rewrites.fieldNameEntry (e : FieldNameEntry) : Rewrites FieldNameEntry.read e e.bytes := by
  intro c c' hrun
  obtain ⟨index, c₁, hindex, hrun⟩ := bind_ok_cases hrun
  obtain ⟨name, c₂, hname, hrun⟩ := bind_ok_cases hrun
  obtain ⟨className, c₃, hclassName, heq⟩ := bind_ok_cases hrun
  cases heq
  have hindexSize := Definite.i32.size_le hindex
  obtain ⟨nameBytes, hnameBytes, hnameSize⟩ := Rewrites.text name _ _ hname
  obtain ⟨classBytes, hclassBytes, hclassSize⟩ := Rewrites.text className _ _ hclassName
  refine ⟨_, bind_eq_ok.2 ⟨nameBytes, hnameBytes, bind_eq_ok.2 ⟨classBytes, hclassBytes, rfl⟩⟩, ?_⟩
  simp only [List.length_append, length_i32]
  omega

/-- A dependency that was read can be written. -/
theorem Rewrites.dependencyEntry (e : DependencyEntry) :
    Rewrites DependencyEntry.read e e.bytes := by
  intro c c' hrun
  obtain ⟨name, c₁, hname, hrun⟩ := bind_ok_cases hrun
  obtain ⟨version, c₂, hversion, heq⟩ := bind_ok_cases hrun
  cases heq
  obtain ⟨nameBytes, hnameBytes, hnameSize⟩ := Rewrites.text name _ _ hname
  obtain ⟨versionBytes, hversionBytes, hversionSize⟩ := Rewrites.text version _ _ hversion
  refine ⟨_, bind_eq_ok.2 ⟨nameBytes, hnameBytes,
    bind_eq_ok.2 ⟨versionBytes, hversionBytes, rfl⟩⟩, ?_⟩
  rw [List.length_append]
  omega

/-- The target of an alias that was read can be written. -/
theorem Rewrites.aliasTarget (target : AliasTarget) :
    Rewrites AliasTarget.read target target.bytes := by
  intro c c' hrun
  obtain ⟨isType, c₁, hkind, hrun⟩ := bind_ok_cases hrun
  have hkindSize := Definite.bool.size_le hkind
  cases isType with
  | true =>
      obtain ⟨index, c₂, hindex, heq⟩ := bind_ok_cases hrun
      cases heq
      have hindexSize := Definite.i32.size_le hindex
      refine ⟨_, rfl, ?_⟩
      simp only [List.length_append, length_bool, length_i32]
      omega
  | false =>
      obtain ⟨returnType, c₂, hreturn, hrun⟩ := bind_ok_cases hrun
      obtain ⟨arguments, c₃, harguments, heq⟩ := bind_ok_cases hrun
      cases heq
      have hreturnSize := Definite.typeIndex.size_le hreturn
      obtain ⟨listBytes, hlistBytes, hlistSize⟩ := Rewrites.arguments arguments _ _ harguments
      refine ⟨_, bind_eq_ok.2 ⟨listBytes, hlistBytes, rfl⟩, ?_⟩
      rw [TypeIndex.size] at hreturnSize
      simp only [List.length_append, length_bool, length_typeIndex]
      omega

/-- An alias that was read can be written. -/
theorem Rewrites.aliasEntry (e : AliasEntry) : Rewrites AliasEntry.read e e.bytes := by
  intro c c' hrun
  obtain ⟨key, c₁, hkey, hrun⟩ := bind_ok_cases hrun
  obtain ⟨name, c₂, hname, hrun⟩ := bind_ok_cases hrun
  obtain ⟨target, c₃, htarget, heq⟩ := bind_ok_cases hrun
  cases heq
  have hkeySize := Definite.i32.size_le hkey
  have hnameSize := Definite.i32.size_le hname
  obtain ⟨targetBytes, htargetBytes, htargetSize⟩ := Rewrites.aliasTarget target _ _ htarget
  refine ⟨_, bind_eq_ok.2 ⟨targetBytes, htargetBytes, rfl⟩, ?_⟩
  simp only [List.length_append, length_i32]
  omega

/-! ## Generic parameters -/

/-- A constraint that was read names a type exactly if its kind does. -/
theorem constraint_eq_ok {x : Constraint} (hrun : Constraint.read c = .ok x c') :
    x.typeIndex.isSome = x.kind.namesType ∧ x.bytes.length + c'.remaining ≤ c.remaining := by
  obtain ⟨number, c₁, hnumber, hrun⟩ := bind_ok_cases hrun
  have hnumberSize := Definite.i32.size_le hnumber
  cases hkind : ConstraintKind.ofNumber? number with
  | none =>
      rw [hkind] at hrun
      cases hrun
  | some kind =>
      rw [hkind] at hrun
      dsimp only at hrun
      split at hrun
      · next hnames =>
          obtain ⟨index, c₂, hindex, heq⟩ := bind_ok_cases hrun
          cases heq
          have hindexSize := Definite.i32.size_le hindex
          refine ⟨hnames.symm, ?_⟩
          simp only [Constraint.bytes, Option.map_some, Option.getD_some, List.length_append,
            length_i32]
          omega
      · next hnames =>
          cases hrun
          refine ⟨(Bool.not_eq_true _ ▸ hnames).symm, ?_⟩
          simpa [Constraint.bytes] using hnumberSize

/-- A generic parameter that was read can be written. -/
theorem Rewrites.genericEntry (e : GenericEntry) : Rewrites GenericEntry.read e e.bytes := by
  intro c c' hrun
  obtain ⟨key, c₁, hkey, hrun⟩ := bind_ok_cases hrun
  obtain ⟨name, c₂, hname, hrun⟩ := bind_ok_cases hrun
  obtain ⟨constraints, c₃, hconstraints, heq⟩ := bind_ok_cases hrun
  cases heq
  have hkeySize := Definite.i32.size_le hkey
  have hentry : ∀ x ∈ constraints, Rewrites Constraint.read x (.ok x.bytes) :=
    fun x _ c c' hrun => ⟨x.bytes, rfl, (constraint_eq_ok hrun).2⟩
  obtain ⟨nameBytes, hnameBytes, hnameSize⟩ := Rewrites.text name _ _ hname
  obtain ⟨listBytes, hlistBytes, hlistSize⟩ := Rewrites.list hentry _ _ hconstraints
  refine ⟨_, bind_eq_ok.2 ⟨nameBytes, hnameBytes, bind_eq_ok.2 ⟨listBytes, hlistBytes, rfl⟩⟩, ?_⟩
  simp only [List.length_append, length_i32]
  omega

/-- The constraints that are read name a type exactly when their kind asks for one. -/
theorem Yields.genericEntry : Yields GenericEntry.read fun e =>
    ∀ x ∈ e.constraints, x.typeIndex.isSome = x.kind.namesType :=
  .after fun _ => .after fun _ =>
    (Yields.list fun _ _ _ hrun => (constraint_eq_ok hrun).1).bind fun _ hx => .pure hx

/-! ## Images -/

/-- No image is read with a constraint that lacks its type or has one too many. -/
theorem Yields.moduleImage : Yields ModuleImage.read fun img =>
    ∀ g ∈ img.generics, ∀ x ∈ g.constraints, x.typeIndex.isSome = x.kind.namesType :=
  .after fun _ => .after fun _ => .after fun _ => .after fun _ => .after fun _ => .after fun _ =>
    .after fun _ => .after fun _ => .after fun _ => .after fun _ =>
    (Yields.list Yields.genericEntry).bind fun _ hgenerics =>
    .after fun _ => .after fun _ => .pure hgenerics

/-- An image that was read can be written, unless it has floating point constants. -/
theorem Rewrites.moduleImage {img : ModuleImage}
    (hconstants : ∀ e ∈ img.constants, e.value.isFloating = false) :
    Rewrites ModuleImage.read img img.encode := by
  intro c c' hrun
  obtain ⟨nameIndex, c₁, hname, hrun⟩ := bind_ok_cases hrun
  obtain ⟨versionIndex, c₂, hversion, hrun⟩ := bind_ok_cases hrun
  obtain ⟨found, c₃, hfound, hrun⟩ := bind_ok_cases hrun
  obtain ⟨_, c₄, hcheck, hrun⟩ := bind_ok_cases hrun
  obtain ⟨strings, c₅, hstrings, hrun⟩ := bind_ok_cases hrun
  obtain ⟨typeNames, c₆, htypeNames, hrun⟩ := bind_ok_cases hrun
  obtain ⟨fieldNames, c₇, hfieldNames, hrun⟩ := bind_ok_cases hrun
  obtain ⟨dependencies, c₈, hdependencies, hrun⟩ := bind_ok_cases hrun
  obtain ⟨classes, c₉, hclasses, hrun⟩ := bind_ok_cases hrun
  obtain ⟨aliases, c₁₀, haliases, hrun⟩ := bind_ok_cases hrun
  obtain ⟨generics, c₁₁, hgenerics, hrun⟩ := bind_ok_cases hrun
  obtain ⟨block, c₁₂, hblock, hrun⟩ := bind_ok_cases hrun
  obtain ⟨constants, c₁₃, hlift, heq⟩ := bind_ok_cases hrun
  cases heq
  obtain ⟨hdecode, rfl⟩ := liftExcept_eq_ok hlift
  have hnameSize := Definite.i32.size_le hname
  have hversionSize := Definite.i32.size_le hversion
  have hfoundSize := Definite.i32.size_le hfound
  have hcheckSize := (Definite.checkVersion found).size_le hcheck
  obtain ⟨_, hstringsWritten, hstringsSize⟩ :=
    Rewrites.list (fun e _ => Rewrites.stringEntry e) _ _ hstrings
  obtain ⟨_, htypeNamesWritten, htypeNamesSize⟩ :=
    Rewrites.list (fun e _ => Rewrites.typeNameEntry e) _ _ htypeNames
  obtain ⟨_, hfieldNamesWritten, hfieldNamesSize⟩ :=
    Rewrites.list (fun e _ => Rewrites.fieldNameEntry e) _ _ hfieldNames
  obtain ⟨_, hdependenciesWritten, hdependenciesSize⟩ :=
    Rewrites.list (fun e _ => Rewrites.dependencyEntry e) _ _ hdependencies
  obtain ⟨_, hclassesWritten, hclassesSize⟩ :=
    Rewrites.list (fun b _ => Rewrites.classBlock b) _ _ hclasses
  obtain ⟨_, haliasesWritten, haliasesSize⟩ :=
    Rewrites.list (fun e _ => Rewrites.aliasEntry e) _ _ haliases
  obtain ⟨_, hgenericsWritten, hgenericsSize⟩ :=
    Rewrites.list (fun e _ => Rewrites.genericEntry e) _ _ hgenerics
  -- bytes that were left over in the block of constants are not written again
  obtain ⟨content, hcontent, hcontentLe⟩ := encodeAll_of_decodeAll hconstants hdecode
  obtain ⟨_, hblockWritten, hblockSize⟩ := Rewrites.block block _ _ hblock
  obtain ⟨_, hconstantsWritten, hconstantsSize⟩ := block_of_length_le hblockWritten hcontentLe
  refine ⟨_, bind_eq_ok.2 ⟨_, hstringsWritten, bind_eq_ok.2 ⟨_, htypeNamesWritten,
    bind_eq_ok.2 ⟨_, hfieldNamesWritten, bind_eq_ok.2 ⟨_, hdependenciesWritten,
    bind_eq_ok.2 ⟨_, hclassesWritten, bind_eq_ok.2 ⟨_, haliasesWritten,
    bind_eq_ok.2 ⟨_, hgenericsWritten, bind_eq_ok.2 ⟨content, hcontent,
    bind_eq_ok.2 ⟨_, hconstantsWritten, rfl⟩⟩⟩⟩⟩⟩⟩⟩⟩, ?_⟩
  simp only [List.length_append, length_i32]
  omega

/-- An image that was read, from whatever bytes, is written in no more bytes and read back. -/
theorem encode_of_decode {bytes : Bytes} {img : ModuleImage}
    (hdecode : ModuleImage.decode bytes = .ok img)
    (hconstants : ∀ e ∈ img.constants, e.value.isFloating = false) :
    ∃ out, img.encode = .ok out ∧ out.length ≤ bytes.length ∧
      ModuleImage.decode out = .ok img := by
  obtain ⟨out, hwritten, hsize⟩ := (Rewrites.moduleImage hconstants).decode hdecode
  obtain ⟨c, hrun⟩ := decode_eq_ok hdecode
  have hconstraints := Yields.moduleImage _ _ _ hrun
  have hread := (Mirrors.moduleImage hconstants hconstraints out hwritten).2.decode []
  rw [List.append_nil] at hread
  exact ⟨out, hwritten, hsize, hread⟩

/-- The bytes of an image that is never written so: a truth value that is neither zero nor one, the
other code for nothing, with a text, the number `+07`, a byte left over in the constants and another
one behind them. -/
def looseBytes : Bytes :=
  [0, 0, 0, 0, 1, 0, 0, 0, 13, 0, 0, 0] ++ List.replicate 20 0
    ++ [1, 0, 0, 0, 8, 0, 0, 0, 3, 0, 0, 0, 5, 2, 0, 0, 0] ++ List.replicate 4 0
    ++ [35, 0, 0, 0, 2, 0, 0, 0]
    ++ [1, 0, 0, 0, 1, 0, 0, 0, 110, 1, 0, 0, 0, 120]
    ++ [9, 0, 0, 0, 1, 0, 0, 0, 105, 3, 0, 0, 0, 43, 48, 55]
    ++ [255, 255]

/-- What is written drops the text of nothing, the sign, the zero and both bytes that were left. -/
theorem encode_of_decode_loose : ∃ (img : ModuleImage) (out : Bytes),
    ModuleImage.decode looseBytes = .ok img ∧
      img.constants = [⟨"n", .null⟩, ⟨"i", .i32 7⟩] ∧ img.aliases = [⟨8, 3, .type 2⟩] ∧
      img.encode = .ok out ∧ out.length + 5 = looseBytes.length ∧
      ModuleImage.decode out = .ok img := by
  let img : ModuleImage :=
    { nameIndex := 0
      versionIndex := 1
      strings := []
      typeNames := []
      fieldNames := []
      dependencies := []
      classes := []
      aliases := [⟨8, 3, .type 2⟩]
      generics := []
      constants := [⟨"n", .null⟩, ⟨"i", .i32 7⟩] }
  have hdecode : ModuleImage.decode looseBytes = .ok img := rfl
  have hlength : img.encode.toOption.map List.length = some 88 := by decide +kernel
  obtain ⟨out, hwritten, _, hread⟩ := encode_of_decode hdecode (by decide)
  rw [hwritten] at hlength
  exact ⟨img, out, hdecode, rfl, rfl, hwritten, congrArg (· + 5) (Option.some.inj hlength), hread⟩

end VaultKernel
