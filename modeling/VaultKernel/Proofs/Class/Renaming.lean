import Mathlib.GroupTheory.GroupAction.MultipleTransitivity
import VaultKernel.Class.Completion
import VaultKernel.Class.Distribution
import VaultKernel.Class.Predefined
import VaultKernel.Native.Linking
import VaultKernel.Proofs.Agreement
import VaultKernel.Vault.Load

/-!
# Renaming

Which handles and numbers a module and its classes get depends on what a vault has stored before. A
`Renaming` exchanges them; the predefined classes keep theirs. `rename` is defined for everything
that mentions a handle or a number, and leaves all else as it is. The stages of a load that do not
read the vault commute with it: what they make of renamed symbols is the renamed result.
-/

namespace VaultKernel

/-- An exchange of class handles, module numbers and class numbers. -/
structure Renaming where
  classes : Equiv.Perm ClassRef
  modules : Equiv.Perm ModuleId
  classIds : Equiv.Perm UInt16
  core : ∀ t : CoreType, classes t.ref = t.ref
  runtime : modules CoreType.owner = CoreType.owner

/-- Any handles can be exchanged for others. -/
theorem exists_perm_map_eq {α : Type} {xs ys : List α} (hx : xs.Nodup) (hy : ys.Nodup)
    (hlength : xs.length = ys.length) : ∃ g : Equiv.Perm α, xs.map g = ys := by
  have htransitive := Equiv.Perm.isMultiplyPretransitive α xs.length
  obtain ⟨g, hg⟩ := htransitive.exists_smul_eq
    (⟨xs.get, hx.injective_get⟩ : Fin xs.length ↪ α)
    ⟨fun i => ys.get (i.cast hlength), hy.injective_get.comp (Fin.cast_injective hlength)⟩
  refine ⟨g, List.ext_getElem (by simpa using hlength) fun i hi hi' => ?_⟩
  have hat := DFunLike.congr_fun hg ⟨i, by simpa using hi⟩
  simpa using hat

/-! ## What is renamed -/

section

variable (ρ : Renaming)

/-- The token with the numbers of the other module and class. -/
def Token.rename (t : Token) : Token := ⟨ρ.modules t.moduleId, ρ.classIds t.classId⟩

def GenericConstraint.rename (c : GenericConstraint) : GenericConstraint :=
  { c with type := c.type.map ρ.classes }

def GenericParam.rename (p : GenericParam) : GenericParam :=
  { p with constraints := p.constraints.map (·.rename ρ) }

def TypeRef.rename : TypeRef → TypeRef
  | .class ref => .class (ρ.classes ref)
  | .generic param => .generic (param.rename ρ)

def MethodArgument.rename (a : MethodArgument) : MethodArgument :=
  { a with type := a.type.rename ρ }

def ProtectedZone.rename (z : ProtectedZone) : ProtectedZone :=
  { z with catchTypes := z.catchTypes.map (Option.map ρ.classes) }

def MethodHeader.rename (h : MethodHeader) : MethodHeader :=
  { h with zones := h.zones.map (·.rename ρ) }

def MethodRef.rename (m : MethodRef) : MethodRef := { m with owner := ρ.classes m.owner }

/-- The binding of the other method; the code that it is bound to is the same. -/
def NativeBinding.rename : NativeBinding → NativeBinding
  | .builtin key function => .builtin key function
  | .imported entity => .imported { entity with importer := entity.importer.rename ρ }
  | .unavailable error => .unavailable error

def Method.rename (m : Method) : Method :=
  { m with
    returnType := m.returnType.rename ρ
    arguments := m.arguments.map (·.rename ρ)
    header := m.header.map (·.rename ρ)
    native := m.native.map (·.rename ρ) }

def Field.rename (f : Field) : Field := { f with type := f.type.rename ρ }

/-- The class of the other module: its parent and the types of its members are exchanged, and its
token. Names, flags, bodies, aspects and the layout are the same. -/
def Class.rename (c : Class) : Class :=
  { c with
    parent := c.parent.map ρ.classes
    fields := c.fields.map (·.rename ρ)
    methods := c.methods.map (·.rename ρ)
    token := c.token.rename ρ
    owner := ρ.modules c.owner }

def Alias.rename : Alias → Alias
  | .type name target => .type name (ρ.classes target)
  | .method name returnType arguments =>
    .method name (returnType.rename ρ) (arguments.map (·.rename ρ))

def Dependency.rename (d : Dependency) : Dependency := { d with module := ρ.modules d.module }

def ClassEntry.rename (e : ClassEntry) : ClassEntry := { e with ref := ρ.classes e.ref }

/-- The entries of a table are changed one by one. -/
def Table.map {κ α β : Type} (f : α → β) (t : Table κ α) : Table κ β :=
  ⟨t.entries.map fun e => (e.1, f e.2)⟩

/-- The other module: its name, version, constants and aspects, and its tables of strings, types and
fields are the same. -/
def Module.rename (m : Module) : Module :=
  { m with
    id := ρ.modules m.id
    generics := m.generics.map (·.rename ρ)
    aliases := m.aliases.map (·.rename ρ)
    classTable := m.classTable.map (·.rename ρ)
    dependencies := m.dependencies.map (·.rename ρ)
    bootstrapper := m.bootstrapper.map ρ.classes }

def Symbols.rename (s : Symbols) : Symbols :=
  { s with
    generics := s.generics.map (·.rename ρ)
    classes := s.classes.map ρ.classes
    root := ρ.classes s.root }

def DeclaredClass.rename (c : DeclaredClass) : DeclaredClass := { c with ref := ρ.classes c.ref }

def ResolvedMethod.rename (m : ResolvedMethod) : ResolvedMethod :=
  { m with
    returnType := m.returnType.rename ρ
    arguments := m.arguments.map (·.rename ρ) }

def Run.ResolvedClass.rename (c : Run.ResolvedClass) : Run.ResolvedClass where
  declared := c.declared.rename ρ
  parent := c.parent.map ρ.classes
  methods := c.methods.map (·.rename ρ)
  fields := c.fields.map (·.rename ρ)

end

variable (ρ : Renaming) {s : Symbols}

/-- Looking up a changed table changes what was found. -/
theorem Table.get?_map {κ α β : Type} [DecidableEq κ] (f : α → β) (t : Table κ α) (key : κ) :
    (t.map f).get? key = (t.get? key).map f := by
  obtain ⟨entries⟩ := t
  show (entries.map fun e => (e.1, f e.2)).lookup key = (entries.lookup key).map f
  induction entries with
  | nil => rfl
  | cons e entries ih =>
      rw [List.map_cons, List.lookup_cons, List.lookup_cons]
      cases key == e.1 with
      | true => rfl
      | false => exact ih

/-- A table may be changed before or after it is made of its entries. -/
theorem Table.map_ofList {κ α β : Type} (f : α → β) (entries : List (κ × α)) :
    (Table.ofList entries).map f = .ofList (entries.map fun e => (e.1, f e.2)) := by
  rw [Table.ofList, Table.ofList, Table.map, List.map_reverse]

/-! ## Types -/

namespace Symbols

variable (s)

/-- Renamed symbols have the renamed class at an index. -/
theorem classAt_rename (index : Int32) :
    (s.rename ρ).classAt index = ρ.classes <$> s.classAt index := by
  refine bind_eq_map (id_map (s.typeName index)).symm fun name => ?_
  have hget : (s.rename ρ).classes.get? name = (s.classes.get? name).map ρ.classes :=
    Table.get?_map _ _ _
  rw [id_eq, hget]
  cases s.classes.get? name <;> rfl

/-- Renamed symbols have the renamed type at an index, with the same short name. -/
theorem type_rename (t : Wire.TypeIndex) :
    (s.rename ρ).type t = Prod.map (·.rename ρ) id <$> s.type t := by
  cases t with
  | type index =>
      refine bind_eq_map (s.classAt_rename ρ index) fun ref => ?_
      refine bind_eq_map (id_map (s.typeName index)).symm fun name => ?_
      rfl
  | generic key =>
      have hget : (s.rename ρ).generics.get? key = (s.generics.get? key).map (·.rename ρ) :=
        Table.get?_map _ _ _
      rw [type, type, hget]
      cases s.generics.get? key <;> rfl

/-- Renamed symbols give an argument the renamed type. -/
theorem argument_rename (a : Image.Argument) :
    (s.rename ρ).argument a = Prod.map (·.rename ρ) id <$> s.argument a := by
  refine bind_eq_map (s.type_rename ρ a.type) fun type => ?_
  refine bind_eq_map (id_map (s.string a.name)).symm fun name => ?_
  rfl

/-- Renamed symbols give the arguments their renamed types. -/
theorem arguments_rename (args : List Image.Argument) :
    (s.rename ρ).arguments args = Prod.map (List.map (·.rename ρ)) id <$> s.arguments args := by
  refine bind_eq_map (mapM_eq_map_mapM (s.argument_rename ρ) args) fun pairs => ?_
  show Except.ok (List.unzip _) = Except.ok (Prod.map _ id pairs.unzip)
  simp [List.unzip_eq_map]

/-- Renamed symbols have the renamed catch type. -/
theorem catchType_rename (index : Int32) :
    (s.rename ρ).catchType index = Option.map ρ.classes <$> s.catchType index := by
  unfold catchType
  split
  · rfl
  · rw [type_rename]
    rcases s.type (.type index) with e | ⟨type, name⟩
    · rfl
    · cases type <;> rfl

/-- Renamed symbols give a zone its renamed catch type. -/
theorem zone_rename (z : Image.Zone) : (s.rename ρ).zone z = (·.rename ρ) <$> s.zone z := by
  exact bind_eq_map (mapM_eq_map_mapM (s.catchType_rename ρ) z.catchTypes) fun _ => rfl

end Symbols

/-! ## Generic parameters and aliases -/

/-- A constraint reads alike up to the renaming. -/
theorem Run.readConstraint_rename (s : Symbols) (c : Image.Constraint) :
    readConstraint (s.rename ρ) c = (·.rename ρ) <$> readConstraint s c := by
  unfold readConstraint
  cases c.typeIndex with
  | none => rfl
  | some index =>
      dsimp only
      rw [Symbols.classAt_rename]
      cases s.classAt index <;> rfl

/-- A generic parameter reads alike up to the renaming. -/
theorem Run.readGeneric_rename (s : Symbols) (e : Image.GenericEntry) :
    readGeneric (s.rename ρ) e = Prod.map id (·.rename ρ) <$> readGeneric s e := by
  exact bind_eq_map (mapM_eq_map_mapM (readConstraint_rename ρ s) e.constraints) fun _ => rfl

/-- An alias reads alike up to the renaming. -/
theorem Run.readAlias_rename (s : Symbols) (e : Image.AliasEntry) :
    readAlias (s.rename ρ) e = (·.rename ρ) <$> readAlias s e := by
  refine bind_eq_map (id_map (s.typeName e.name)).symm fun name => ?_
  cases e.target with
  | type index => exact bind_eq_map (s.classAt_rename ρ index) fun ref => rfl
  | method returnType args =>
      refine bind_eq_map (s.type_rename ρ returnType) fun type => ?_
      exact bind_eq_map (s.arguments_rename ρ args) fun _ => rfl

/-! ## Members and parents -/

namespace DeclaredClass

/-- A renamed class has the renamed parent. -/
theorem parent_rename (c : DeclaredClass) (s : Symbols) :
    (c.rename ρ).parent (s.rename ρ) = Option.map ρ.classes <$> c.parent s := by
  unfold parent
  show (if c.parents.isEmpty then _ else _) = _
  split
  · show Except.ok (if ρ.classes c.ref ≠ ρ.classes s.root then _ else _) =
      Except.ok (Option.map _ (if c.ref ≠ s.root then _ else _))
    by_cases hroot : c.ref = s.root
    · simp [hroot]
    · simp [hroot, Symbols.rename]
  · refine bind_eq_map (mapM_eq_map_mapM (s.classAt_rename ρ) c.parents) fun refs => ?_
    show Except.ok (List.find? _ _) = Except.ok (Option.map _ (List.find? _ refs))
    rw [List.find?_map]
    congr 3
    funext ref
    simp [rename]

/-- A renamed class reads a method block alike up to the renaming. -/
theorem method_rename (c : DeclaredClass) (s : Symbols) (block : Wire.Bytes) :
    (c.rename ρ).method (s.rename ρ) block = (·.rename ρ) <$> c.method s block := by
  unfold method
  cases Image.Method.decode block with
  | error e => rfl
  | ok m =>
      refine bind_eq_map (id_map (s.string m.name)).symm fun name => ?_
      refine bind_eq_map (s.type_rename ρ m.returnType) fun type => ?_
      exact bind_eq_map (s.arguments_rename ρ m.arguments) fun _ => rfl

/-- A field reads alike up to the renaming. -/
theorem field_rename (s : Symbols) (f : Image.Field) :
    field (s.rename ρ) f = (·.rename ρ) <$> field s f := by
  refine bind_eq_map (id_map (s.fieldName f.name)).symm fun name => ?_
  exact bind_eq_map (s.type_rename ρ f.type) fun _ => rfl

/-- A renamed class has the renamed members. -/
theorem members_rename (c : DeclaredClass) (s : Symbols) :
    (c.rename ρ).members (s.rename ρ) =
      Prod.map (List.map (·.rename ρ)) (List.map (·.rename ρ)) <$> c.members s := by
  refine bind_eq_map (mapM_eq_map_mapM (c.method_rename ρ s) c.methods) fun methods => ?_
  exact bind_eq_map (mapM_eq_map_mapM (field_rename ρ s) c.fields) fun _ => rfl

end DeclaredClass

/-- Resolving renamed classes gives the renamed results. -/
theorem Run.resolveClasses_rename (s : Symbols) (declared : List DeclaredClass) :
    resolveClasses (s.rename ρ) (declared.map (·.rename ρ)) =
      List.map (·.rename ρ) <$> resolveClasses s declared := by
  refine bind_eq_map (mapM_eq_map (fun d => d.parent_rename ρ s) declared) fun parents => ?_
  rw [List.zip_map]
  refine mapM_eq_map (fun pair => ?_) (declared.zip parents)
  exact bind_eq_map (pair.1.members_rename ρ s) fun _ => rfl

/-! ## Finished methods -/

/-- A renamed method is completed alike up to the renaming. -/
theorem ResolvedMethod.complete_rename (m : ResolvedMethod) (s : Symbols) :
    (m.rename ρ).complete (s.rename ρ) = (·.rename ρ) <$> m.complete s := by
  have hheader : (m.rename ρ).header (s.rename ρ) = (·.rename ρ) <$> m.header s := by
    unfold header
    rw [show (m.rename ρ).body = m.body from rfl]
    cases Image.Code.decode m.body with
    | error e => rfl
    | ok code =>
        exact bind_eq_map (mapM_eq_map_mapM (s.zone_rename ρ) code.zones) fun _ => rfl
  unfold complete
  show (if m.hasNoBody then _ else _) = _
  split
  · rfl
  · refine bind_eq_map (g := Option.map (·.rename ρ)) ?_ fun _ => rfl
    rw [hheader]
    cases m.header s <;> rfl

/-! ## Aspects -/

/-- The first element to change is the same in a list whose elements were exchanged. -/
theorem changeFirst?_map {α β : Type} {p : α → Bool} {p' : β → Bool} {f : α → α} {f' : β → β}
    {g : α → β} (hp : ∀ x, p' (g x) = p x) (hf : ∀ x, f' (g x) = g (f x)) (xs : List α) :
    changeFirst? p' f' (xs.map g) = (changeFirst? p f xs).map (List.map g) := by
  induction xs with
  | nil => rfl
  | cons x xs ih =>
      rw [List.map_cons, changeFirst?, changeFirst?, hp, ih]
      split
      · rw [hf]
        rfl
      · cases changeFirst? p f xs <;> rfl

/-- A renamed class takes the same aspects. -/
theorem Class.attach?_rename (c : Class) (aspect : Aspect) :
    (c.rename ρ).attach? aspect = (c.attach? aspect).map (·.rename ρ) := by
  unfold attach?
  cases aspect.target with
  | «class» _ =>
      show some (if aspect ∈ c.aspects then _ else _) = some (rename ρ (if _ then _ else _))
      split <;> rfl
  | method _ name =>
      dsimp only
      rw [show (c.rename ρ).methods = c.methods.map (·.rename ρ) from rfl,
        changeFirst?_map (g := Method.rename ρ) (p := fun m => m.isCalled name)
          (f := fun m => { m with aspects := m.aspects ++ [aspect] }) (fun _ => rfl) fun _ => rfl]
      cases changeFirst? (fun m : Method => m.isCalled name) _ c.methods <;> rfl
  | field _ name =>
      dsimp only
      rw [show (c.rename ρ).fields = c.fields.map (·.rename ρ) from rfl,
        changeFirst?_map (g := Field.rename ρ) (p := fun f => f.name.name = name)
          (f := fun f => { f with aspects := f.aspects ++ [aspect] }) (fun _ => rfl) fun _ => rfl]
      cases changeFirst? (fun f : Field => f.name.name = name) _ c.fields <;> rfl

/-! ## Modules -/

namespace Module

/-- The own classes of a renamed module are the renamed own classes. -/
theorem ownClasses_rename (m : Module) :
    (m.rename ρ).ownClasses = m.ownClasses.map ρ.classes := by
  unfold ownClasses
  show (m.classTable.map (·.rename ρ)).filterMap _ = _
  rw [List.filterMap_map, List.map_filterMap]
  congr 1
  funext e
  show (if e.isOwn then _ else _) = _
  split <;> rfl

/-- A module may get a class before or after it is renamed. -/
theorem addOwn_rename (m : Module) (ref : ClassRef) :
    (m.rename ρ).addOwn (ρ.classes ref) = (m.addOwn ref).rename ρ := by
  simp [addOwn, rename, ClassEntry.rename]

/-- A module may mention a class before or after it is renamed. -/
theorem mention_rename (m : Module) (ref : ClassRef) :
    (m.rename ρ).mention (ρ.classes ref) = (m.mention ref).rename ρ := by
  have hany : (m.rename ρ).classTable.any (·.ref = ρ.classes ref) =
      m.classTable.any (·.ref = ref) := by
    show (m.classTable.map (·.rename ρ)).any _ = _
    rw [List.any_map]
    congr 1
    funext e
    simp [ClassEntry.rename, ρ.classes.injective.eq_iff]
  unfold mention
  rw [hany]
  split
  · rfl
  · simp [rename, ClassEntry.rename]

/-- The symbols of a renamed module are its renamed symbols. -/
theorem symbols_rename (m : Module) (visible : Table TypeName ClassRef) (root : ClassRef) :
    (m.rename ρ).symbols (visible.map ρ.classes) (ρ.classes root) =
      (m.symbols visible root).rename ρ := rfl

end Module

end VaultKernel
