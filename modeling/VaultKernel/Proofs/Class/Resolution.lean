import Mathlib.Data.List.Forall2
import VaultKernel.Class.Resolution
import VaultKernel.Proofs.Outcome

/-!
# What resolution answers

A declared class mentions strings, field names, types and generic parameters by index
(`DeclaredClass.mentions`). Resolution succeeds exactly if its method blocks can be read and the
tables have whatever it mentions, and fails with something that it mentions and the tables lack. The
relations `Symbols.Declares` and `Symbols.DeclaresField` say, without an order of evaluation, which
members come out; they look at nothing but entries that are there, so more entries change nothing.
The main statement is `DeclaredClass.resolution_characterised`.
-/

namespace VaultKernel

/-- Steps for the elements of a list succeed if each of them does, and answer in order. -/
theorem mapM_eq_ok_iff {ε α β : Type} {f : α → Except ε β} {xs : List α} {ys : List β} :
    xs.mapM f = .ok ys ↔ List.Forall₂ (fun x y => f x = .ok y) xs ys := by
  induction xs generalizing ys with
  | nil =>
      rw [List.mapM_nil, pure_eq_ok, List.forall₂_nil_left_iff, eq_comm]
  | cons x xs ih =>
      simp only [List.mapM_cons, bind_eq_ok, pure_eq_ok, ih, List.forall₂_cons_left_iff]
      constructor
      · rintro ⟨y, hy, rest, hrest, rfl⟩
        exact ⟨y, rest, hy, hrest, rfl⟩
      · rintro ⟨y, rest, hy, hrest, rfl⟩
        exact ⟨y, hy, rest, hrest, rfl⟩

theorem exists_of_forall₂ {α β : Type} {R : α → β → Prop} {xs : List α} {ys : List β}
    (h : List.Forall₂ R xs ys) : ∀ x ∈ xs, ∃ y ∈ ys, R x y := by
  induction h with
  | nil => simp
  | cons hxy _ ih =>
      intro x hx
      rcases List.mem_cons.1 hx with rfl | hx
      · exact ⟨_, by simp, hxy⟩
      · obtain ⟨y, hy, hR⟩ := ih x hx
        exact ⟨y, by simp [hy], hR⟩

/-! ## Mentions -/

/-- A place in a table that a class refers to. -/
inductive Mention where
  | string (index : Int32)
  | field (index : Int32)
  /-- A type by the index of its name. -/
  | type (index : Int32)
  | generic (key : Int32)
  deriving DecidableEq, Repr

/-- What a type on the wire refers to. -/
def Wire.TypeIndex.mention : Wire.TypeIndex → Mention
  | .type index => .type index
  | .generic key => .generic key

/-- What an argument refers to. -/
def Image.Argument.mentions (a : Image.Argument) : List Mention := [.string a.name, a.type.mention]

/-- What a method refers to. -/
def Image.Method.mentions (m : Image.Method) : List Mention :=
  .string m.name :: m.returnType.mention :: m.arguments.flatMap Image.Argument.mentions

/-- What a field refers to. -/
def Image.Field.mentions (f : Image.Field) : List Mention := [.field f.name, f.type.mention]

/-- The methods of a class whose blocks can be read. -/
def DeclaredClass.readable (c : DeclaredClass) : List Image.Method :=
  c.methods.filterMap fun block => (Image.Method.decode block).toOption

/-- What the members of a class refer to. -/
def DeclaredClass.mentions (c : DeclaredClass) : List Mention :=
  c.readable.flatMap Image.Method.mentions ++ c.fields.flatMap Image.Field.mentions

namespace Symbols

variable {s s' : Symbols}

/-- Whether the tables have what is mentioned; the name of a type must be visible, too. -/
def Has (s : Symbols) : Mention → Prop
  | .string index => (s.strings.get? index).isSome
  | .field index => (s.fields.get? index).isSome
  | .type index => ((s.types.get? index).bind s.classes.get?).isSome
  | .generic key => (s.generics.get? key).isSome

instance (s : Symbols) : DecidablePred s.Has
  | .string index => inferInstanceAs (Decidable ((s.strings.get? index).isSome = true))
  | .field index => inferInstanceAs (Decidable ((s.fields.get? index).isSome = true))
  | .type index =>
    inferInstanceAs (Decidable (((s.types.get? index).bind s.classes.get?).isSome = true))
  | .generic key => inferInstanceAs (Decidable ((s.generics.get? key).isSome = true))

/-- The tables lack what is mentioned, and the failure says so. -/
inductive Lacks (s : Symbols) : Mention → Unresolved → Prop where
  | string {index : Int32} :
      s.strings.get? index = none → Lacks s (.string index) (.stringIndex index s.module)
  | field {index : Int32} :
      s.fields.get? index = none → Lacks s (.field index) (.fieldIndex index s.module)
  | typeIndex {index : Int32} :
      s.types.get? index = none → Lacks s (.type index) (.typeIndex index s.module)
  | type {index : Int32} {name : TypeName} :
      s.types.get? index = some name → s.classes.get? name = none →
      Lacks s (.type index) (.type name.full s.module)
  | generic {key : Int32} :
      s.generics.get? key = none → Lacks s (.generic key) (.genericKey key s.module)

/-- What the tables lack they do not have. -/
theorem Lacks.not_has {x : Mention} {e : Unresolved} (h : s.Lacks x e) : ¬ s.Has x := by
  cases h with
  | string h => simp [Has, h]
  | field h => simp [Has, h]
  | typeIndex h => simp [Has, h]
  | type hname hclass => simp [Has, hname, hclass]
  | generic h => simp [Has, h]

/-! ## Members -/

/-- The type that an index stands for, with its short name. -/
inductive Stands (s : Symbols) : Wire.TypeIndex → TypeRef → String → Prop where
  | type {index : Int32} {name : TypeName} {ref : ClassRef} :
      s.types.get? index = some name → s.classes.get? name = some ref →
      Stands s (.type index) (.class ref) name.short
  | generic {key : Int32} {param : GenericParam} :
      s.generics.get? key = some param → Stands s (.generic key) (.generic param) param.name

/-- The argument that is declared, with the short name of its type. -/
structure DeclaresArgument (s : Symbols) (a : Image.Argument) (x : MethodArgument × String) :
    Prop where
  name : s.strings.get? a.name = some x.1.name
  type : s.Stands a.type x.1.type x.2

/-- The method that is declared, with the short names of its argument types. -/
structure Declares (s : Symbols) (d : Image.Method) (shorts : List String) (m : ResolvedMethod) :
    Prop where
  name : s.strings.get? d.name = some m.name
  returnType : ∃ short, s.Stands d.returnType m.returnType short
  arguments : List.Forall₂ s.DeclaresArgument d.arguments (m.arguments.zip shorts)
  shorts_length : shorts.length = m.arguments.length
  signature : m.signature = m.name ++ "(" ++ Text.join "," shorts ++ ")"
  flags : m.flags = FlagSet.ofWire d.flags
  maxStack : m.maxStack = d.stackSize
  locals : m.locals = d.locals
  body : m.body = d.body

/-- The method that a block declares. -/
def DeclaresBlock (s : Symbols) (block : Wire.Bytes) (m : ResolvedMethod) : Prop :=
  ∃ d shorts, Image.Method.decode block = .ok d ∧ s.Declares d shorts m

/-- The field that is declared. -/
structure DeclaresField (s : Symbols) (d : Image.Field) (f : Field) : Prop where
  name : s.fields.get? d.name = some f.name
  type : ∃ short, s.Stands d.type f.type short
  flags : f.flags = FlagSet.ofWire d.flags
  aspects : f.aspects = []

/-- The class that a type index names. -/
def NamesClass (s : Symbols) (index : Int32) (ref : ClassRef) : Prop :=
  ∃ name, s.types.get? index = some name ∧ s.classes.get? name = some ref

/-- The tables have whatever a type is resolved from. -/
theorem Stands.has {t : Wire.TypeIndex} {type : TypeRef} {short : String}
    (h : s.Stands t type short) : s.Has t.mention := by
  cases h with
  | type hname hclass => simp [Has, Wire.TypeIndex.mention, hname, hclass]
  | generic hparam => simp [Has, Wire.TypeIndex.mention, hparam]

/-- The tables have a text that they answer. -/
theorem has_string {index : Int32} {text : String} (h : s.strings.get? index = some text) :
    s.Has (.string index) := by
  simp [Has, h]

/-- The tables have whatever the declaration of a method mentions. -/
theorem Declares.has {d : Image.Method} {shorts : List String} {m : ResolvedMethod}
    (h : s.Declares d shorts m) : ∀ x ∈ d.mentions, s.Has x := by
  obtain ⟨short, htype⟩ := h.returnType
  simp only [Image.Method.mentions, List.forall_mem_cons, List.forall_mem_flatMap]
  refine ⟨has_string h.name, htype.has, fun a ha => ?_⟩
  obtain ⟨x, _, hx⟩ := exists_of_forall₂ h.arguments a ha
  simpa [Image.Argument.mentions] using ⟨has_string hx.name, hx.type.has⟩

/-- The tables have whatever the declaration of a field mentions. -/
theorem DeclaresField.has {d : Image.Field} {f : Field} (h : s.DeclaresField d f) :
    ∀ x ∈ d.mentions, s.Has x := by
  obtain ⟨short, htype⟩ := h.type
  simpa [Image.Field.mentions, Has, h.name] using htype.has

/-- The tables have a type exactly when it names a class that is visible. -/
theorem has_type_iff {index : Int32} : s.Has (.type index) ↔ ∃ ref, s.NamesClass index ref := by
  simp only [Has, Option.isSome_iff_exists, Option.bind_eq_some_iff, NamesClass]

/-! ## Extensions -/

/-- The second tables have every entry of the first ones, and the same root class. -/
structure Extends (s s' : Symbols) : Prop where
  strings : ∀ key x, s.strings.get? key = some x → s'.strings.get? key = some x
  types : ∀ key x, s.types.get? key = some x → s'.types.get? key = some x
  fields : ∀ key x, s.fields.get? key = some x → s'.fields.get? key = some x
  generics : ∀ key x, s.generics.get? key = some x → s'.generics.get? key = some x
  classes : ∀ key x, s.classes.get? key = some x → s'.classes.get? key = some x
  root : s'.root = s.root

namespace Extends

variable {d : Image.Method} {shorts : List String} {m : ResolvedMethod}

/-- With more entries a type still stands for what it stood for. -/
theorem stands (h : s.Extends s') {t : Wire.TypeIndex} {type : TypeRef} {short : String}
    (ht : s.Stands t type short) : s'.Stands t type short := by
  cases ht with
  | type hname hclass => exact .type (h.types _ _ hname) (h.classes _ _ hclass)
  | generic hparam => exact .generic (h.generics _ _ hparam)

/-- With more entries a method is still declared as it was. -/
theorem declares (h : s.Extends s') (hm : s.Declares d shorts m) : s'.Declares d shorts m where
  name := h.strings _ _ hm.name
  returnType := hm.returnType.imp fun _ => h.stands
  arguments := hm.arguments.imp fun _ _ ha => ⟨h.strings _ _ ha.name, h.stands ha.type⟩
  shorts_length := hm.shorts_length
  signature := hm.signature
  flags := hm.flags
  maxStack := hm.maxStack
  locals := hm.locals
  body := hm.body

/-- With more entries a block still declares the method it declared. -/
theorem declaresBlock (h : s.Extends s') {block : Wire.Bytes} (hm : s.DeclaresBlock block m) :
    s'.DeclaresBlock block m := by
  obtain ⟨d, shorts, hdecode, hm⟩ := hm
  exact ⟨d, shorts, hdecode, h.declares hm⟩

/-- With more entries a field is still declared as it was. -/
theorem declaresField (h : s.Extends s') {d : Image.Field} {f : Field} (hf : s.DeclaresField d f) :
    s'.DeclaresField d f :=
  ⟨h.fields _ _ hf.name, hf.type.imp fun _ => h.stands, hf.flags, hf.aspects⟩

/-- With more entries an index still names the class it named. -/
theorem namesClass (h : s.Extends s') {index : Int32} {ref : ClassRef}
    (hclass : s.NamesClass index ref) : s'.NamesClass index ref := by
  obtain ⟨name, hname, hclass⟩ := hclass
  exact ⟨name, h.types _ _ hname, h.classes _ _ hclass⟩

end Extends

/-! ## Look-ups -/

/-- A text is answered exactly when the tables have it. -/
theorem string_eq_ok_iff {index : Int32} {text : String} :
    s.string index = .ok text ↔ s.strings.get? index = some text := by
  unfold string
  cases s.strings.get? index <;> simp

/-- A text is refused because the tables lack it. -/
theorem string_eq_error {index : Int32} {e : Unresolved} (h : s.string index = .error e) :
    s.Lacks (.string index) e := by
  unfold string at h
  split at h
  · cases h
  · next hnone =>
      cases h
      exact .string hnone

/-- A field name is answered exactly when the tables have it. -/
theorem fieldName_eq_ok_iff {index : Int32} {name : FieldName} :
    s.fieldName index = .ok name ↔ s.fields.get? index = some name := by
  unfold fieldName
  cases s.fields.get? index <;> simp

/-- A field name is refused because the tables lack it. -/
theorem fieldName_eq_error {index : Int32} {e : Unresolved} (h : s.fieldName index = .error e) :
    s.Lacks (.field index) e := by
  unfold fieldName at h
  split at h
  · cases h
  · next hnone =>
      cases h
      exact .field hnone

/-- A type name is answered exactly when the tables have it. -/
theorem typeName_eq_ok_iff {index : Int32} {name : TypeName} :
    s.typeName index = .ok name ↔ s.types.get? index = some name := by
  unfold typeName
  cases s.types.get? index <;> simp

/-- A class is answered exactly when the index names it. -/
theorem classAt_eq_ok_iff {index : Int32} {ref : ClassRef} :
    s.classAt index = .ok ref ↔ s.NamesClass index ref := by
  rw [classAt, bind_eq_ok]
  refine exists_congr fun name => ?_
  rw [typeName_eq_ok_iff]
  refine and_congr_right fun _ => ?_
  cases s.classes.get? name <;> simp

/-- A class is refused because the tables lack its name or the class is not visible. -/
theorem classAt_eq_error {index : Int32} {e : Unresolved} (h : s.classAt index = .error e) :
    s.Lacks (.type index) e := by
  rcases bind_eq_error.1 h with h | ⟨name, hname, h⟩
  · unfold typeName at h
    split at h
    · cases h
    · next hnone =>
        cases h
        exact .typeIndex hnone
  · split at h
    · cases h
    · next hnone =>
        cases h
        exact .type (typeName_eq_ok_iff.1 hname) hnone

/-- A type is answered exactly when it stands for something. -/
theorem type_eq_ok_iff {t : Wire.TypeIndex} {x : TypeRef × String} :
    s.type t = .ok x ↔ s.Stands t x.1 x.2 := by
  obtain ⟨resolved, short⟩ := x
  cases t with
  | type index =>
      simp only [Symbols.type, bind_eq_ok, classAt_eq_ok_iff, typeName_eq_ok_iff, pure_eq_ok]
      constructor
      · rintro ⟨ref, ⟨name, hname, hclass⟩, name', hname', heq⟩
        cases heq
        cases hname.symm.trans hname'
        exact .type hname hclass
      · rintro (⟨hname, hclass⟩ | _)
        exact ⟨_, ⟨_, hname, hclass⟩, _, hname, rfl⟩
  | generic key =>
      simp only [Symbols.type]
      constructor
      · intro h
        split at h
        · next hparam =>
            cases h
            exact .generic hparam
        · cases h
      · rintro (_ | hparam)
        rw [hparam]

/-- A type is refused because the tables lack what it refers to. -/
theorem type_eq_error {t : Wire.TypeIndex} {e : Unresolved} (h : s.type t = .error e) :
    s.Lacks t.mention e := by
  cases t with
  | type index =>
      rcases bind_eq_error.1 h with h | ⟨ref, href, h⟩
      · exact classAt_eq_error h
      · -- a class is found through its name, so the name is there
        obtain ⟨name, hname, _⟩ := classAt_eq_ok_iff.1 href
        rcases bind_eq_error.1 h with h | ⟨_, _, h⟩
        · rw [typeName_eq_ok_iff.2 hname] at h
          cases h
        · cases h
  | generic key =>
      simp only [Symbols.type] at h
      split at h
      · cases h
      · next hnone =>
          cases h
          exact .generic hnone

/-- An argument is answered exactly as it is declared. -/
theorem argument_eq_ok_iff {a : Image.Argument} {x : MethodArgument × String} :
    s.argument a = .ok x ↔ s.DeclaresArgument a x := by
  obtain ⟨⟨name, type⟩, short⟩ := x
  simp only [argument, bind_eq_ok, pure_eq_ok, type_eq_ok_iff, string_eq_ok_iff]
  constructor
  · rintro ⟨y, htype, text, hname, heq⟩
    cases heq
    exact ⟨hname, htype⟩
  · rintro ⟨hname, htype⟩
    exact ⟨(type, short), htype, name, hname, rfl⟩

/-- An argument is refused for something that it mentions. -/
theorem argument_eq_error {a : Image.Argument} {e : Unresolved} (h : s.argument a = .error e) :
    ∃ x ∈ a.mentions, s.Lacks x e := by
  rcases bind_eq_error.1 h with h | ⟨_, _, h⟩
  · exact ⟨_, by simp [Image.Argument.mentions], type_eq_error h⟩
  · rcases bind_eq_error.1 h with h | ⟨_, _, h⟩
    · exact ⟨_, by simp [Image.Argument.mentions], string_eq_error h⟩
    · cases h

end Symbols

namespace DeclaredClass

variable {c : DeclaredClass} {s s' : Symbols}

/-! ## Methods -/

/-- The arguments are answered one by one, each as it is declared. -/
theorem arguments_eq_ok_iff {args : List Image.Argument} {x : List MethodArgument × List String} :
    s.arguments args = .ok x ↔
      List.Forall₂ s.DeclaresArgument args (x.1.zip x.2) ∧ x.2.length = x.1.length := by
  obtain ⟨arguments, shorts⟩ := x
  simp only [Symbols.arguments, bind_eq_ok, pure_eq_ok, mapM_eq_ok_iff, Symbols.argument_eq_ok_iff]
  constructor
  · rintro ⟨pairs, hpairs, heq⟩
    obtain ⟨rfl, rfl⟩ := Prod.mk.inj heq
    rw [List.zip_unzip]
    exact ⟨hpairs, by simp⟩
  · rintro ⟨hpairs, hlength⟩
    exact ⟨_, hpairs, List.unzip_zip hlength.symm⟩

/-- A method is answered exactly as its block declares it. -/
theorem method_eq_ok_iff {block : Wire.Bytes} {m : ResolvedMethod} :
    c.method s block = .ok m ↔ s.DeclaresBlock block m := by
  unfold method Symbols.DeclaresBlock
  cases hdecode : Image.Method.decode block with
  | error e => simp
  | ok d =>
      simp only [bind_eq_ok, pure_eq_ok, Symbols.string_eq_ok_iff, Symbols.type_eq_ok_iff,
        arguments_eq_ok_iff]
      constructor
      · rintro ⟨name, hname, ⟨returnType, short⟩, htype, ⟨arguments, shorts⟩, ⟨hargs, hlength⟩, rfl⟩
        exact ⟨d, shorts, rfl, hname, ⟨short, htype⟩, hargs, hlength, rfl, rfl, rfl, rfl, rfl⟩
      · rintro ⟨d', shorts, heq, hm⟩
        cases heq
        obtain ⟨short, htype⟩ := hm.returnType
        refine ⟨m.name, hm.name, (m.returnType, short), htype, (m.arguments, shorts),
          ⟨hm.arguments, hm.shorts_length⟩, ?_⟩
        rw [ResolvedMethod.signatureOf, ← hm.signature, ← hm.flags, ← hm.maxStack, ← hm.locals,
          ← hm.body]

/-- A method is refused because its block cannot be read, or for something that it mentions. -/
theorem method_eq_error {block : Wire.Bytes} {e : Unresolved} (h : c.method s block = .error e) :
    (∃ cause, Image.Method.decode block = .error cause ∧ e = .malformed c.name.full cause) ∨
      ∃ d, Image.Method.decode block = .ok d ∧ ∃ x ∈ d.mentions, s.Lacks x e := by
  unfold method at h
  cases hdecode : Image.Method.decode block with
  | error cause =>
      rw [hdecode] at h
      cases h
      exact Or.inl ⟨cause, rfl, rfl⟩
  | ok d =>
      rw [hdecode] at h
      refine Or.inr ⟨d, rfl, ?_⟩
      rcases bind_eq_error.1 h with h | ⟨_, _, h⟩
      · exact ⟨_, by simp [Image.Method.mentions], Symbols.string_eq_error h⟩
      rcases bind_eq_error.1 h with h | ⟨_, _, h⟩
      · exact ⟨_, by simp [Image.Method.mentions], Symbols.type_eq_error h⟩
      rcases bind_eq_error.1 h with h | ⟨_, _, h⟩
      · rcases bind_eq_error.1 h with h | ⟨_, _, h⟩
        · obtain ⟨a, ha, h⟩ := exists_of_mapM_eq_error h
          obtain ⟨x, hx, hlacks⟩ := Symbols.argument_eq_error h
          refine ⟨x, ?_, hlacks⟩
          simp only [Image.Method.mentions, List.mem_cons, List.mem_flatMap]
          exact Or.inr (Or.inr ⟨a, ha, hx⟩)
        · cases h
      · cases h

/-! ## Fields -/

/-- A field is answered exactly as it is declared. -/
theorem field_eq_ok_iff {d : Image.Field} {f : Field} :
    field s d = .ok f ↔ s.DeclaresField d f := by
  simp only [field, bind_eq_ok, pure_eq_ok, Symbols.fieldName_eq_ok_iff, Symbols.type_eq_ok_iff]
  constructor
  · rintro ⟨name, hname, ⟨type, short⟩, htype, rfl⟩
    exact ⟨hname, ⟨short, htype⟩, rfl, rfl⟩
  · intro hf
    obtain ⟨short, htype⟩ := hf.type
    refine ⟨f.name, hf.name, (f.type, short), htype, ?_⟩
    rw [← hf.flags, ← hf.aspects]

/-- A field is refused for something that it mentions. -/
theorem field_eq_error {d : Image.Field} {e : Unresolved} (h : field s d = .error e) :
    ∃ x ∈ d.mentions, s.Lacks x e := by
  rcases bind_eq_error.1 h with h | ⟨_, _, h⟩
  · exact ⟨_, by simp [Image.Field.mentions], Symbols.fieldName_eq_error h⟩
  · rcases bind_eq_error.1 h with h | ⟨_, _, h⟩
    · exact ⟨_, by simp [Image.Field.mentions], Symbols.type_eq_error h⟩
    · cases h

/-! ## Members -/

/-- The readable methods are those of the blocks that can be read. -/
theorem mem_readable_iff {d : Image.Method} :
    d ∈ c.readable ↔ ∃ block ∈ c.methods, Image.Method.decode block = .ok d := by
  simp only [readable, List.mem_filterMap, toOption_eq_some]

/-- The members are answered one by one, each as it is declared. -/
theorem members_eq_ok_iff {methods : List ResolvedMethod} {fields : List Field} :
    c.members s = .ok (methods, fields) ↔
      List.Forall₂ s.DeclaresBlock c.methods methods ∧
        List.Forall₂ s.DeclaresField c.fields fields := by
  simp only [members, bind_eq_ok, pure_eq_ok, mapM_eq_ok_iff, method_eq_ok_iff, field_eq_ok_iff]
  constructor
  · rintro ⟨methods', hmethods, fields', hfields, heq⟩
    cases heq
    exact ⟨hmethods, hfields⟩
  · rintro ⟨hmethods, hfields⟩
    exact ⟨methods, hmethods, fields, hfields, rfl⟩

/-- The members are refused for a block that cannot be read, or for something they mention. -/
theorem members_eq_error {e : Unresolved} (h : c.members s = .error e) :
    (∃ block ∈ c.methods, ∃ cause, Image.Method.decode block = .error cause ∧
        e = .malformed c.name.full cause) ∨
      ∃ x ∈ c.mentions, s.Lacks x e := by
  rcases bind_eq_error.1 h with h | ⟨_, _, h⟩
  · obtain ⟨block, hblock, h⟩ := exists_of_mapM_eq_error h
    rcases method_eq_error h with hmalformed | ⟨d, hd, x, hx, hlacks⟩
    · exact Or.inl ⟨block, hblock, hmalformed⟩
    · have hreadable : d ∈ c.readable := mem_readable_iff.2 ⟨block, hblock, hd⟩
      exact Or.inr ⟨x, List.mem_append_left _ (List.mem_flatMap.2 ⟨d, hreadable, hx⟩), hlacks⟩
  · rcases bind_eq_error.1 h with h | ⟨_, _, h⟩
    · obtain ⟨d, hd, h⟩ := exists_of_mapM_eq_error h
      obtain ⟨x, hx, hlacks⟩ := field_eq_error h
      exact Or.inr ⟨x, List.mem_append_right _ (List.mem_flatMap.2 ⟨d, hd, hx⟩), hlacks⟩
    · cases h

/-- Whoever has the members has all that they mention. -/
theorem has_of_members {methods : List ResolvedMethod} {fields : List Field}
    (h : c.members s = .ok (methods, fields)) : ∀ x ∈ c.mentions, s.Has x := by
  obtain ⟨hmethods, hfields⟩ := members_eq_ok_iff.1 h
  intro x hx
  rcases List.mem_append.1 hx with hx | hx
  · obtain ⟨d, hd, hx⟩ := List.mem_flatMap.1 hx
    obtain ⟨block, hblock, hdecode⟩ := mem_readable_iff.1 hd
    obtain ⟨m, _, d', shorts, hdecode', hm⟩ := exists_of_forall₂ hmethods block hblock
    cases hdecode.symm.trans hdecode'
    exact hm.has x hx
  · obtain ⟨d, hd, hx⟩ := List.mem_flatMap.1 hx
    obtain ⟨f, _, hf⟩ := exists_of_forall₂ hfields d hd
    exact hf.has x hx

/-! ## Parents -/

/-- A class without parents has the root class above it, unless it is the root class. -/
theorem parent_of_nil (hnil : c.parents = []) :
    c.parent s = .ok (if c.ref = s.root then none else some s.root) := by
  rw [parent, hnil, List.isEmpty_nil, if_pos rfl]
  by_cases hroot : c.ref = s.root <;> simp [hroot]

/-- The parent is the first of the named classes that is another class. -/
theorem parent_eq_ok_iff (hne : c.parents ≠ []) {parent : Option ClassRef} :
    c.parent s = .ok parent ↔
      ∃ refs, List.Forall₂ s.NamesClass c.parents refs ∧ parent = refs.find? (· ≠ c.ref) := by
  have hsome : ¬ c.parents.isEmpty := by simpa using hne
  rw [DeclaredClass.parent, if_neg hsome]
  simp only [bind_eq_ok, pure_eq_ok, mapM_eq_ok_iff, Symbols.classAt_eq_ok_iff]
  exact exists_congr fun refs => and_congr_right fun _ => eq_comm

/-- The parent is refused because one of the classes is lacking. -/
theorem parent_eq_error {e : Unresolved} (h : c.parent s = .error e) :
    ∃ index ∈ c.parents, s.Lacks (.type index) e := by
  unfold DeclaredClass.parent at h
  split at h
  · cases h
  · rcases bind_eq_error.1 h with h | ⟨_, _, h⟩
    · obtain ⟨index, hindex, h⟩ := exists_of_mapM_eq_error h
      exact ⟨index, hindex, Symbols.classAt_eq_error h⟩
    · cases h

/-! ## Main statement -/

/-- What resolving a declared class against tables answers. -/
structure Resolution (c : DeclaredClass) (s : Symbols) : Prop where
  members_iff : (∃ members, c.members s = .ok members) ↔
    (∀ block ∈ c.methods, ∃ d, Image.Method.decode block = .ok d) ∧ ∀ x ∈ c.mentions, s.Has x
  /-- The members are those that are declared, in order. -/
  members : ∀ methods fields, c.members s = .ok (methods, fields) →
    List.Forall₂ s.DeclaresBlock c.methods methods ∧ List.Forall₂ s.DeclaresField c.fields fields
  members_error : ∀ e, c.members s = .error e →
    (∃ block ∈ c.methods, ∃ cause, Image.Method.decode block = .error cause ∧
        e = .malformed c.name.full cause) ∨
      ∃ x ∈ c.mentions, s.Lacks x e
  members_extended : ∀ s', s.Extends s' → ∀ members, c.members s = .ok members →
    c.members s' = .ok members
  parent_iff : (∃ parent, c.parent s = .ok parent) ↔ ∀ index ∈ c.parents, s.Has (.type index)
  /-- Of the listed parents the first one counts that is not the class itself. -/
  parent_listed : ∀ parent, c.parents ≠ [] → c.parent s = .ok parent →
    ∃ refs, List.Forall₂ s.NamesClass c.parents refs ∧ parent = refs.find? (· ≠ c.ref)
  /-- Without a list it is the root class, which itself has no parent. -/
  parent_unlisted : c.parents = [] →
    c.parent s = .ok (if c.ref = s.root then none else some s.root)
  parent_error : ∀ e, c.parent s = .error e → ∃ index ∈ c.parents, s.Lacks (.type index) e
  parent_extended : ∀ s', s.Extends s' → ∀ parent, c.parent s = .ok parent →
    c.parent s' = .ok parent

/-- Resolution succeeds exactly if the blocks can be read and the tables have what is mentioned. It
answers with the declared members and the first listed parent other than the class itself, or with
something that is mentioned in vain; an answer stays the same with more entries in the tables. -/
theorem resolution_characterised (c : DeclaredClass) (s : Symbols) : c.Resolution s where
  members_iff := by
    constructor
    · rintro ⟨⟨methods, fields⟩, h⟩
      refine ⟨fun block hblock => ?_, has_of_members h⟩
      obtain ⟨_, _, d, _, hd, _⟩ := exists_of_forall₂ (members_eq_ok_iff.1 h).1 block hblock
      exact ⟨d, hd⟩
    · rintro ⟨hread, hhas⟩
      cases h : c.members s with
      | ok members => exact ⟨members, rfl⟩
      | error e =>
          rcases members_eq_error h with ⟨block, hblock, cause, hcause, _⟩ | ⟨x, hx, hlacks⟩
          · obtain ⟨d, hd⟩ := hread block hblock
            cases hcause.symm.trans hd
          · exact absurd (hhas x hx) hlacks.not_has
  members _ _ h := members_eq_ok_iff.1 h
  members_error _ h := members_eq_error h
  members_extended s' hs members h := by
    obtain ⟨methods, fields⟩ := members
    obtain ⟨hmethods, hfields⟩ := members_eq_ok_iff.1 h
    exact members_eq_ok_iff.2
      ⟨hmethods.imp fun _ _ => hs.declaresBlock, hfields.imp fun _ _ => hs.declaresField⟩
  parent_iff := by
    constructor
    · rintro ⟨parent, h⟩ index hindex
      obtain ⟨refs, hrefs, _⟩ := (parent_eq_ok_iff (List.ne_nil_of_mem hindex)).1 h
      obtain ⟨ref, _, href⟩ := exists_of_forall₂ hrefs index hindex
      exact Symbols.has_type_iff.2 ⟨ref, href⟩
    · intro hhas
      cases h : c.parent s with
      | ok parent => exact ⟨parent, rfl⟩
      | error e =>
          obtain ⟨index, hindex, hlacks⟩ := parent_eq_error h
          exact absurd (hhas index hindex) hlacks.not_has
  parent_listed _ hne h := (parent_eq_ok_iff hne).1 h
  parent_unlisted := parent_of_nil
  parent_error _ h := parent_eq_error h
  parent_extended s' hs parent h := by
    by_cases hnil : c.parents = []
    · rw [parent_of_nil hnil] at h ⊢
      rwa [hs.root]
    · obtain ⟨refs, hrefs, rfl⟩ := (parent_eq_ok_iff hnil).1 h
      exact (parent_eq_ok_iff hnil).2 ⟨refs, hrefs.imp fun _ _ => hs.namesClass, rfl⟩

/-- The root class itself has no parent, although it lists none. -/
theorem parent_root_class :
    let object : TypeName := ⟨"std%std/Object"⟩
    let declared : DeclaredClass := ⟨⟨0, 0⟩, object, [], [], []⟩
    let symbols : Symbols :=
      { module := "app", types := .ofList [(0, object)], classes := .ofList [(object, ⟨0, 0⟩)],
        root := ⟨0, 0⟩ }
    declared.parents = [] ∧ declared.parent symbols = .ok none ∧
      declared.parent symbols ≠ .ok (some symbols.root) := by
  decide

end DeclaredClass

end VaultKernel
