import VaultKernel.Image.Module
import VaultKernel.Proofs.Text.Numeral
import VaultKernel.Proofs.Wire.Reads

/-!
# Images that were written can be read

For each part of an image one lemma says that its reader takes what is written for it, and how many
bytes that is at least. `decode_encode` puts the parts together: an image is read back from its
bytes, whatever follows them, if it has no floating point constants and its generic constraints name
a type exactly if their kind does.
-/

namespace VaultKernel

open Wire Image

/-! ## Constants -/

/-- Whether a constant is a floating point number. -/
def Constant.isFloating : Constant → Bool
  | .f32 _ | .f64 _ => true
  | _ => false

/-- A signed number within the width is read back from its decimal text. -/
theorem Constant.signed?_integer (width : Nat) {z : Int}
    (hlow : -((Nat.pow 2 (width - 1) : Nat) : Int) ≤ z)
    (hhigh : z < (Nat.pow 2 (width - 1) : Nat)) :
    Constant.signed? width (Text.integer z) = some z := by
  have hpos : 0 < Nat.pow 2 (width - 1) := Nat.two_pow_pos _
  exact Text.integerIn?_integer (by omega) (by omega)

/-- An unsigned number within the width is read back from its decimal text. -/
theorem Constant.unsigned?_natural {width n : Nat} (hn : n < Nat.pow 2 width) :
    Constant.unsigned? width (Text.natural n) = some n :=
  Text.unsignedUpTo?_natural (by omega)

/-- A constant that is no floating point number is read back from its text. -/
theorem Constant.read?_text {c : Constant} (hc : c.isFloating = false) :
    Constant.read? c.typeCode c.text = some c := by
  cases c with
  | null => rfl
  | bool v => cases v <;> rfl
  | char v => simp [read?, typeCode, text, onlyChar?]
  | i8 v => simp [read?, typeCode, text, signed?_integer 8 v.le_toInt v.toInt_lt]
  | u8 v => simp [read?, typeCode, text, unsigned?_natural v.toNat_lt]
  | i16 v => simp [read?, typeCode, text, signed?_integer 16 v.le_toInt v.toInt_lt]
  | u16 v => simp [read?, typeCode, text, unsigned?_natural v.toNat_lt]
  | i32 v => simp [read?, typeCode, text, signed?_integer 32 v.le_toInt v.toInt_lt]
  | u32 v => simp [read?, typeCode, text, unsigned?_natural v.toNat_lt]
  | i64 v => simp [read?, typeCode, text, signed?_integer 64 v.le_toInt v.toInt_lt]
  | u64 v => simp [read?, typeCode, text, unsigned?_natural v.toNat_lt]
  | f32 bits => cases hc
  | f64 bits => cases hc
  | string v => rfl

/-- A value that is there already is read from no bytes. -/
theorem Reads.liftExcept {α : Type} (a : α) : Reads (ConstantEntry.liftExcept (.ok a)) [] a :=
  Reads.pure a

/-- A constant that is not a floating point number is read back. -/
theorem Mirrors.constantEntry {e : ConstantEntry} (he : e.value.isFloating = false) :
    Mirrors ConstantEntry.reader 12 e e.bytes := by
  intro bytes hwritten
  obtain ⟨name, hname, hrest⟩ := bind_eq_ok.1 hwritten
  obtain ⟨text, htext, heq⟩ := bind_eq_ok.1 hrest
  cases pure_eq_ok.1 heq
  obtain ⟨hnameSize, hnameRead⟩ := Mirrors.text e.name name hname
  obtain ⟨htextSize, htextRead⟩ := Mirrors.text e.value.text text htext
  have hcode : TypeCode.ofWire (Int32.ofNat e.value.typeCode.number) = .ok e.value.typeCode := by
    rw [TypeCode.ofWire, TypeCode.ofNumber?_number]
  have hvalue : Constant.read e.value.typeCode e.name e.value.text = .ok e.value := by
    rw [Constant.read, Constant.read?_text he]
  refine ⟨by simp only [List.length_append, length_i32]; omega, ?_⟩
  rw [List.append_assoc]
  refine (Reads.i32 _).bind ?_
  rw [hcode]
  refine (Reads.liftExcept _).bind_nil (hnameRead.bind (htextRead.bind_last ?_))
  rw [hvalue]
  exact (Reads.liftExcept e.value).map (ConstantEntry.mk e.name)

/-- A block of constants is read back if none of them is a floating point number. -/
theorem decodeAll_encodeAll {entries : List ConstantEntry} {block : Bytes}
    (hentries : ∀ e ∈ entries, e.value.isFloating = false)
    (hwritten : ConstantEntry.encodeAll entries = .ok block) :
    ConstantEntry.decodeAll block = .ok entries := by
  have hlist : Mirrors (Reader.list 12 ConstantEntry.reader) 4 entries (.ok block) := by
    rw [← hwritten]
    exact Mirrors.list (by omega) fun e he => Mirrors.constantEntry (hentries e he)
  obtain ⟨_, hreads⟩ := hlist block rfl
  rw [ConstantEntry.decodeAll, ← List.append_nil block]
  exact hreads.decode []

/-! ## Classes -/

/-- An argument is read back. -/
theorem Reads.argument (a : Argument) : Reads Argument.read a.bytes a :=
  (Reads.i32 a.name).bind ((Reads.typeIndex a.type).map (Argument.mk a.name))

/-- A list of arguments is read back. -/
theorem Mirrors.arguments (args : List Argument) :
    Mirrors Argument.readList 4 args (Argument.listBytes args) :=
  Mirrors.plainList (by decide) (fun a _ => by simp [Argument.bytes, TypeIndex.size])
    fun a _ => Reads.argument a

/-- A field is read back. -/
theorem Reads.field (f : Image.Field) : Reads Image.Field.read f.bytes f := by
  rw [Image.Field.bytes, List.append_assoc]
  exact (Reads.i32 f.name).bind
    ((Reads.typeIndex f.type).bind ((Reads.i16 f.flags).map (Image.Field.mk f.name f.type)))

/-- A list of fields is read back. -/
theorem Mirrors.fields (fields : List Image.Field) :
    Mirrors (Reader.list (4 + TypeIndex.size + 2) Image.Field.read) 4 fields
      (Writer.list (fun f => .ok (Image.Field.bytes f)) fields) :=
  Mirrors.plainList (by decide) (fun f _ => by simp [Image.Field.bytes, TypeIndex.size])
    fun f _ => Reads.field f

/-- The parents of a class are read back, four bytes each. -/
theorem Reads.parents (parents : List Int32) :
    parents.length * 4 ≤ (parents.flatMap Writer.i32).length ∧
      Reads (Reader.times Reader.i32 parents.length) (parents.flatMap Writer.i32) parents := by
  have hwritten : parents.mapM (fun p => (.ok (Writer.i32 p) : Except Wire.Error Bytes)) =
      .ok (parents.map Writer.i32) := List.mapM_pure
  have hentry : ∀ p ∈ parents, Mirrors Reader.i32 4 p (.ok (Writer.i32 p)) :=
    fun p _ => Mirrors.ok (by simp) (Reads.i32 p)
  rw [List.flatMap_def]
  exact Reads.times hentry hwritten

/-- A class body is read back. -/
theorem Mirrors.classBody (c : ClassBody) : Mirrors ClassBody.read 0 c c.encode := by
  intro bytes hwritten
  obtain ⟨count, hcount, hrest⟩ := bind_eq_ok.1 hwritten
  obtain ⟨methods, hmethods, hrest⟩ := bind_eq_ok.1 hrest
  obtain ⟨fields, hfields, heq⟩ := bind_eq_ok.1 hrest
  cases pure_eq_ok.1 heq
  have hcountRead := (Mirrors.shortLength _ count hcount).2
  obtain ⟨hparentsSize, hparentsRead⟩ := Reads.parents c.parents
  have hmethodsRead := (Mirrors.list (by omega) (fun m _ => Mirrors.block m) methods hmethods).2
  have hfieldsRead := (Mirrors.fields c.fields fields hfields).2
  refine ⟨by omega, ?_⟩
  simp only [List.append_assoc]
  refine (Reads.i32 c.name).bind ((Reads.i16 c.flags).bind (hcountRead.fitting ?_ ?_))
  · exact hparentsRead.bind (hmethodsRead.bind
      (hfieldsRead.map (ClassBody.mk c.name c.flags c.parents c.methods)))
  · rw [List.length_append, Nat.max_eq_left (by omega)]
    omega

/-- A class body fills its block. -/
theorem decode_classBody {c : ClassBody} {block : Bytes} (hwritten : c.encode = .ok block) :
    ClassBody.decode block = .ok c := by
  have hread := (Mirrors.classBody c block hwritten).2 [] 0
  rw [List.append_nil, Nat.zero_add] at hread
  simp only [ClassBody.decode, Reader.decode, Cursor.start, bind, EStateM.bind, hread]
  rfl

/-- A class body is read back from its block. -/
theorem Mirrors.classBlock (c : ClassBody) : Mirrors ClassBody.readBlock 4 c c.blockBytes := by
  intro bytes hwritten
  obtain ⟨block, hblock, hbytes⟩ := bind_eq_ok.1 hwritten
  obtain ⟨hsize, hread⟩ := Mirrors.block block bytes hbytes
  refine ⟨hsize, hread.bind_last ?_⟩
  rw [decode_classBody hblock]
  exact Reads.liftExcept c

/-! ## Tables -/

/-- A string entry is read back. -/
theorem Mirrors.stringEntry (e : StringEntry) : Mirrors StringEntry.read 8 e e.bytes := by
  intro bytes hwritten
  obtain ⟨text, htext, heq⟩ := bind_eq_ok.1 hwritten
  cases pure_eq_ok.1 heq
  obtain ⟨htextSize, htextRead⟩ := Mirrors.text e.text text htext
  refine ⟨by simp only [List.length_append, length_i32]; omega, ?_⟩
  exact (Reads.i32 e.index).bind (htextRead.map (StringEntry.mk e.index))

/-- A type name entry is read back. -/
theorem Mirrors.typeNameEntry (e : TypeNameEntry) : Mirrors TypeNameEntry.read 16 e e.bytes := by
  intro bytes hwritten
  obtain ⟨assembly, hassembly, hrest⟩ := bind_eq_ok.1 hwritten
  obtain ⟨space, hspace, hrest⟩ := bind_eq_ok.1 hrest
  obtain ⟨name, hname, heq⟩ := bind_eq_ok.1 hrest
  cases pure_eq_ok.1 heq
  obtain ⟨hassemblySize, hassemblyRead⟩ := Mirrors.text e.assembly assembly hassembly
  obtain ⟨hspaceSize, hspaceRead⟩ := Mirrors.text e.space space hspace
  obtain ⟨hnameSize, hnameRead⟩ := Mirrors.text e.name name hname
  refine ⟨by simp only [List.length_append, length_i32]; omega, ?_⟩
  simp only [List.append_assoc]
  exact (Reads.i32 e.index).bind (hassemblyRead.bind (hspaceRead.bind
    (hnameRead.map (TypeNameEntry.mk e.index e.assembly e.space))))

/-- A field name entry is read back. -/
theorem Mirrors.fieldNameEntry (e : FieldNameEntry) : Mirrors FieldNameEntry.read 12 e e.bytes := by
  intro bytes hwritten
  obtain ⟨name, hname, hrest⟩ := bind_eq_ok.1 hwritten
  obtain ⟨className, hclassName, heq⟩ := bind_eq_ok.1 hrest
  cases pure_eq_ok.1 heq
  obtain ⟨hnameSize, hnameRead⟩ := Mirrors.text e.name name hname
  obtain ⟨hclassNameSize, hclassNameRead⟩ := Mirrors.text e.className className hclassName
  refine ⟨by simp only [List.length_append, length_i32]; omega, ?_⟩
  simp only [List.append_assoc]
  exact (Reads.i32 e.index).bind (hnameRead.bind
    (hclassNameRead.map (FieldNameEntry.mk e.index e.name)))

/-- A dependency is read back. -/
theorem Mirrors.dependencyEntry (e : DependencyEntry) :
    Mirrors DependencyEntry.read 8 e e.bytes := by
  intro bytes hwritten
  obtain ⟨name, hname, hrest⟩ := bind_eq_ok.1 hwritten
  obtain ⟨version, hversion, heq⟩ := bind_eq_ok.1 hrest
  cases pure_eq_ok.1 heq
  obtain ⟨hnameSize, hnameRead⟩ := Mirrors.text e.name name hname
  obtain ⟨hversionSize, hversionRead⟩ := Mirrors.text e.version version hversion
  refine ⟨by rw [List.length_append]; omega, ?_⟩
  exact hnameRead.bind (hversionRead.map (DependencyEntry.mk e.name))

/-- The target of an alias is read back. -/
theorem Mirrors.aliasTarget (target : AliasTarget) :
    Mirrors AliasTarget.read 5 target target.bytes := by
  cases target with
  | type index =>
      exact Mirrors.ok (by simp) ((Reads.bool true).bind ((Reads.i32 index).map AliasTarget.type))
  | method returnType args =>
      intro bytes hwritten
      obtain ⟨list, hlist, heq⟩ := bind_eq_ok.1 hwritten
      cases pure_eq_ok.1 heq
      obtain ⟨hlistSize, hlistRead⟩ := Mirrors.arguments args list hlist
      refine ⟨by simp only [List.length_append, length_bool, length_typeIndex]; omega, ?_⟩
      rw [List.append_assoc]
      exact (Reads.bool false).bind ((Reads.typeIndex returnType).bind
        (hlistRead.map (AliasTarget.method returnType)))

/-- An alias is read back. -/
theorem Mirrors.aliasEntry (e : AliasEntry) : Mirrors AliasEntry.read 13 e e.bytes := by
  intro bytes hwritten
  obtain ⟨target, htarget, heq⟩ := bind_eq_ok.1 hwritten
  cases pure_eq_ok.1 heq
  obtain ⟨htargetSize, htargetRead⟩ := Mirrors.aliasTarget e.target target htarget
  refine ⟨by simp only [List.length_append, length_i32]; omega, ?_⟩
  rw [List.append_assoc]
  exact (Reads.i32 e.key).bind ((Reads.i32 e.name).bind
    (htargetRead.map (AliasEntry.mk e.key e.name)))

/-! ## Generic parameters -/

/-- The number of a constraint kind stands for this kind. -/
theorem ConstraintKind.ofNumber?_number (kind : ConstraintKind) :
    ConstraintKind.ofNumber? (Int32.ofNat kind.number) = some kind := by
  cases kind <;> decide

/-- A constraint that names a type exactly if its kind does is read back. -/
theorem Reads.constraint {c : Constraint} (hc : c.typeIndex.isSome = c.kind.namesType) :
    Reads Constraint.read c.bytes c := by
  obtain ⟨kind, typeIndex⟩ := c
  refine (Reads.i32 _).bind ?_
  simp only [ConstraintKind.ofNumber?_number]
  cases typeIndex with
  | none =>
      rw [if_neg (by simp [← hc])]
      exact Reads.pure _
  | some index =>
      rw [if_pos (by simp [← hc])]
      exact (Reads.i32 index).map fun index => (⟨kind, some index⟩ : Constraint)

/-- Constraints are read back if each names a type exactly when its kind asks for one. -/
theorem Mirrors.constraints {cs : List Constraint}
    (hcs : ∀ c ∈ cs, c.typeIndex.isSome = c.kind.namesType) :
    Mirrors (Reader.list 4 Constraint.read) 4 cs
      (Writer.list (fun c => .ok (Constraint.bytes c)) cs) :=
  Mirrors.plainList (by omega) (fun c _ => by simp [Constraint.bytes])
    fun c hc => Reads.constraint (hcs c hc)

/-- A generic parameter is read back if its constraints are. -/
theorem Mirrors.genericEntry {e : GenericEntry}
    (he : ∀ c ∈ e.constraints, c.typeIndex.isSome = c.kind.namesType) :
    Mirrors GenericEntry.read 12 e e.bytes := by
  intro bytes hwritten
  obtain ⟨name, hname, hrest⟩ := bind_eq_ok.1 hwritten
  obtain ⟨constraints, hconstraints, heq⟩ := bind_eq_ok.1 hrest
  cases pure_eq_ok.1 heq
  obtain ⟨hnameSize, hnameRead⟩ := Mirrors.text e.name name hname
  obtain ⟨hsize, hread⟩ := Mirrors.constraints he constraints hconstraints
  refine ⟨by simp only [List.length_append, length_i32]; omega, ?_⟩
  rw [List.append_assoc]
  exact (Reads.i32 e.key).bind (hnameRead.bind (hread.map (GenericEntry.mk e.key e.name)))

/-! ## Images -/

/-- The version of the format passes the check of the version. -/
theorem Reads.checkVersion : Reads (ModuleImage.checkVersion ModuleImage.formatVersion) [] () :=
  Reads.pure ()

/-- An image is read back under the two conditions on its constants and its constraints. -/
theorem Mirrors.moduleImage {img : ModuleImage}
    (hconstants : ∀ e ∈ img.constants, e.value.isFloating = false)
    (hconstraints : ∀ g ∈ img.generics, ∀ c ∈ g.constraints,
      c.typeIndex.isSome = c.kind.namesType) :
    Mirrors ModuleImage.read 0 img img.encode := by
  intro bytes hwritten
  obtain ⟨strings, hstrings, hrest⟩ := bind_eq_ok.1 hwritten
  obtain ⟨typeNames, htypeNames, hrest⟩ := bind_eq_ok.1 hrest
  obtain ⟨fieldNames, hfieldNames, hrest⟩ := bind_eq_ok.1 hrest
  obtain ⟨dependencies, hdependencies, hrest⟩ := bind_eq_ok.1 hrest
  obtain ⟨classes, hclasses, hrest⟩ := bind_eq_ok.1 hrest
  obtain ⟨aliases, haliases, hrest⟩ := bind_eq_ok.1 hrest
  obtain ⟨generics, hgenerics, hrest⟩ := bind_eq_ok.1 hrest
  obtain ⟨block, hblock, hrest⟩ := bind_eq_ok.1 hrest
  obtain ⟨constants, hwrittenBlock, heq⟩ := bind_eq_ok.1 hrest
  cases pure_eq_ok.1 heq
  have hstringsRead := (Mirrors.list (by omega) (fun e _ => Mirrors.stringEntry e) _ hstrings).2
  have htypeNamesRead :=
    (Mirrors.list (by omega) (fun e _ => Mirrors.typeNameEntry e) _ htypeNames).2
  have hfieldNamesRead :=
    (Mirrors.list (by omega) (fun e _ => Mirrors.fieldNameEntry e) _ hfieldNames).2
  have hdependenciesRead :=
    (Mirrors.list (by omega) (fun e _ => Mirrors.dependencyEntry e) _ hdependencies).2
  have hclassesRead := (Mirrors.list (by omega) (fun c _ => Mirrors.classBlock c) _ hclasses).2
  have haliasesRead := (Mirrors.list (by omega) (fun e _ => Mirrors.aliasEntry e) _ haliases).2
  have hgenericsRead :=
    (Mirrors.list (by omega) (fun g hg => Mirrors.genericEntry (hconstraints g hg)) _ hgenerics).2
  have hblockRead := (Mirrors.block block _ hwrittenBlock).2
  refine ⟨by omega, ?_⟩
  simp only [List.append_assoc]
  refine (Reads.i32 _).bind ((Reads.i32 _).bind ((Reads.i32 _).bind
    (Reads.checkVersion.bind_nil ?_)))
  refine hstringsRead.bind (htypeNamesRead.bind (hfieldNamesRead.bind (hdependenciesRead.bind ?_)))
  refine hclassesRead.bind (haliasesRead.bind (hgenericsRead.bind (hblockRead.bind_last ?_)))
  rw [decodeAll_encodeAll hconstants hblock]
  exact (Reads.liftExcept img.constants).map fun constants => ({ img with constants } : ModuleImage)

/-- An image is read back from what is written for it, whatever follows. -/
theorem decode_encode {img : ModuleImage} {bytes : Bytes}
    (hconstants : ∀ e ∈ img.constants, e.value.isFloating = false)
    (hconstraints : ∀ g ∈ img.generics, ∀ c ∈ g.constraints,
      c.typeIndex.isSome = c.kind.namesType)
    (hwritten : img.encode = .ok bytes) (tail : Bytes) :
    ModuleImage.decode (bytes ++ tail) = .ok img :=
  (Mirrors.moduleImage hconstants hconstraints bytes hwritten).2.decode tail

/-- An image with a class, an alias, constraints of both shapes and a constant. -/
theorem decode_encode_small : ∃ (img : ModuleImage) (bytes : Bytes),
    img.classes.length = 1 ∧ img.encode = .ok bytes ∧
      ModuleImage.decode (bytes ++ [7]) = .ok img :=
  ⟨{ nameIndex := 0
     versionIndex := 1
     strings := [⟨0, "m"⟩, ⟨1, "1.0"⟩]
     typeNames := [⟨0, "m", "s", "C"⟩]
     fieldNames := [⟨0, "f", "C"⟩]
     dependencies := [⟨"std", "1.0"⟩]
     classes := [⟨0, 2, [-1], [[1, 2]], [⟨0, .generic 0, 4⟩]⟩]
     aliases := [⟨0, 1, .type 0⟩]
     generics := [⟨0, "T", [⟨.type, some 0⟩, ⟨.bittable, none⟩]⟩]
     constants := [⟨"k", .bool true⟩] },
    _, rfl, rfl, decode_encode (by decide) (by decide) rfl [7]⟩

end VaultKernel
