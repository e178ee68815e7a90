import VaultKernel.Class.Completion
import VaultKernel.Class.Distribution
import VaultKernel.Native.Linking
import VaultKernel.Vault.Basic

/-!
# Loading modules

Loading turns an image into a module of the vault, in a fixed order: the image is decoded and gets a
module number; type names are linked to predefined classes or become stubs of own classes;
dependencies are resolved; generic parameters, parents, members and aliases are resolved against the
visible classes; the stubs are completed; constants and aspects are read and distributed; and at
last tokens are checked, native methods linked and layouts assigned. A load that fails removes the
classes that it defined. How dependencies are found is up to the resolver.
-/

namespace VaultKernel

/-- Supplies the module with a name and a version. -/
abbrev Resolver := String → Version → Run ModuleId

namespace Vault

/-- The classes that a module can see: the predefined ones, the own classes of its dependencies and
its own, of which later ones hide earlier ones with the same name. -/
def visibleClasses (v : Vault) (m : Module) : Table TypeName ClassRef :=
  let dependencies := m.dependencies.filterMap fun d => v.module? d.module
  let named := (dependencies ++ [m]).flatMap fun owner =>
    owner.ownClasses.filterMap fun ref => (v.class? ref).map fun c => (c.name, ref)
  Table.ofList (CoreType.all.map (fun t => (t.name, t.ref)) ++ named)

/-- The own class of a module with a full name. -/
def ownClass? (v : Vault) (m : Module) (name : TypeName) : Option ClassRef :=
  m.ownClasses.find? fun ref =>
    match v.class? ref with
    | some c => c.name = name
    | none => false

/-- Removes the classes that a module defined and the collected objects of these classes. -/
def release (v : Vault) (id : ModuleId) : Vault :=
  let owned := v.classes.handlesOf id.toNat
  { v with
    heap := (v.heap.freeWhere fun o => o.type ∈ owned).2
    classes := (v.classes.removeOwner id.toNat).2 }

end Vault

namespace Run

/-- The next module number. -/
def grantModuleId : Run ModuleId := fun v =>
  match v.tokens.nextModule? with
  | some (id, tokens) => .ok id { v with tokens }
  | none => .error (.fatal .moduleIdsExhausted) v

/-- The next class number. -/
def grantClassId : Run UInt16 := fun v =>
  match v.tokens.nextClass? with
  | some (id, tokens) => .ok id { v with tokens }
  | none => .error (.fatal .classIdsExhausted) v

/-- The answer of a step that only reads the symbols. -/
def resolved {α : Type} : Except Unresolved α → Run α
  | .ok a => return a
  | .error e => throw (.unresolved e)

/-- The answer of a step that does not read the vault. -/
def answer {α : Type} : Except Failure α → Run α
  | .ok a => return a
  | .error e => throw e

/-- Changes the descriptor of a class. -/
def changeClass (ref : ClassRef) (f : Class → Class) : Run Unit :=
  modify fun v => { v with classes := v.classes.modify ref f }

/-- Defines a class without members for a module. -/
def defineClass (m : Module) (name : TypeName) (flags : ClassFlags) : Run (ClassRef × Module) := do
  let classId ← grantClassId
  let ref ← modifyGet fun v =>
    let (ref, classes) := v.classes.allocate m.id.toNat
      { name, flags, token := ⟨m.id, classId⟩, owner := m.id }
    (ref, { v with classes })
  return (ref, m.addOwn ref)

/-! ## Tables -/

/-- Links a type name to a predefined class, or makes a stub for a class of the module itself. -/
def readTypeName (m : Module) (e : Image.TypeNameEntry) : Run Module := do
  let name := TypeName.ofParts e.assembly e.space e.name
  let v ← get
  let m ← match CoreType.find? name with
    | some t => pure (m.mention t.ref)
    | none =>
      if e.assembly = m.name ∧ (v.ownClass? m name).isNone then
        (·.2) <$> defineClass m name
          { declared := ⟨0⟩, notCompleted := true, unresolved := true }
      else pure m
  return { m with types := m.types.insert e.index name }

/-- Reads a field name. -/
def readFieldName (m : Module) (e : Image.FieldNameEntry) : Module :=
  { m with fields := m.fields.insert e.index ⟨e.className, e.name⟩ }

/-- The failure of a module whose dependency cannot be supplied; a cycle stays a cycle. -/
def dependencyFailure (name : String) (version : Version) (module : String) : Failure → Failure
  | .dependencyCycle inner => .dependencyCycle inner
  | .overflow => .overflow
  | reason => .dependencyNotFound name version module reason

/-- Resolves a dependency, unless it was listed before. -/
def readDependency (resolve : Resolver) (m : Module) (e : Image.DependencyEntry) : Run Module := do
  let version ← answer (Version.read e.version)
  if m.dependencies.any fun d => d.name = e.name && d.version = version then return m
  else
    let supplied ← mapFailure (dependencyFailure e.name version m.name) (resolve e.name version)
    return { m with dependencies := m.dependencies ++ [⟨e.name, version, supplied⟩] }

/-! ## Classes -/

/-- Connects a class body to the stub of its class. -/
def declareClass (m : Module) (body : Image.ClassBody) : Run DeclaredClass := do
  match m.types.get? body.name with
  | none => throw (.unresolved (.typeIndex body.name m.name))
  | some name =>
    match (← get).ownClass? m name with
    | none => throw (.unresolved (.type name.full m.name))
    | some ref =>
      changeClass ref fun c =>
        { c with flags :=
            { declared := FlagSet.ofWire body.flags, notCompleted := true, unresolved := true } }
      return DeclaredClass.ofBody ref name body

/-- The constraints of a generic parameter. -/
def readConstraint (s : Symbols) (c : Image.Constraint) : Except Unresolved GenericConstraint := do
  let type ← match c.typeIndex with
    | some index => some <$> s.classAt index
    | none => pure none
  return ⟨c.kind, type⟩

/-- Reads a generic parameter. -/
def readGeneric (s : Symbols) (e : Image.GenericEntry) :
    Except Unresolved (Int32 × GenericParam) := do
  return (e.key, ⟨e.name, ← e.constraints.mapM (readConstraint s)⟩)

/-- Resolves an alias. -/
def readAlias (s : Symbols) (e : Image.AliasEntry) : Except Unresolved Alias := do
  let name ← s.typeName e.name
  match e.target with
  | .type index => return .type name (← s.classAt index)
  | .method returnType arguments =>
    let (returnType, _) ← s.type returnType
    let (arguments, _) ← s.arguments arguments
    return .method name returnType arguments

/-- A declared class whose parent and members are resolved. -/
structure ResolvedClass where
  declared : DeclaredClass
  parent : Option ClassRef
  methods : List ResolvedMethod
  fields : List Field

/-- Resolves all parents, then all members. -/
def resolveClasses (s : Symbols) (declared : List DeclaredClass) :
    Except Unresolved (List ResolvedClass) := do
  let parents ← declared.mapM (·.parent s)
  (declared.zip parents).mapM fun (d, parent) => do
    let (methods, fields) ← d.members s
    return ⟨d, parent, methods, fields⟩

/-- Puts the members of a class in place. -/
def completeClass (s : Symbols) (c : ResolvedClass) : Run Unit := do
  let methods ← c.methods.mapM fun m => answer (m.complete s)
  match (← get).class? c.declared.ref with
  | none => fatal (.classFreedDuringLoad c.declared.name.full)
  | some _ =>
    changeClass c.declared.ref fun d =>
      { d with
        parent := c.parent
        methods
        fields := c.fields
        flags := { d.flags with notCompleted := false, unresolved := false } }

/-- Refuses an own class that no body completed. -/
def checkCompleted (ref : ClassRef) : Run Unit := do
  match (← get).class? ref with
  | some c => if c.isCompleted then return () else fatal (.bodyMissing c.name.full)
  | none => return ()

/-- Resolves generic parameters, classes and aliases of a module and completes its classes. -/
def readClasses (m : Module) (image : ModuleImage) : Run Module := do
  let declared ← image.classes.mapM (declareClass m)
  let visible := (← get).visibleClasses m
  let generics ← resolved (image.generics.mapM
    (readGeneric { m.symbols visible CoreType.object.ref with generics := {} }))
  let m := { m with generics := Table.ofList generics }
  let symbols := m.symbols visible CoreType.object.ref
  let classes ← resolved (resolveClasses symbols declared)
  let aliases ← resolved (image.aliases.mapM (readAlias symbols))
  classes.forM (completeClass symbols)
  let m := { m with aliases }
  m.ownClasses.forM checkCompleted
  return m

/-! ## Finishing -/

/-- The space of generated classes. -/
def systemSpace : String := "<sys>"

/-- The short name of the class that every module gets. -/
def bootstrapperName : String := "boot"

/-- The string under an index, which must be there. -/
def moduleString (m : Module) (index : Int32) : Run String :=
  match m.strings.get? index with
  | some text => return text
  | none => throw (.unresolved (.stringIndex index m.name))

/-- Defines the class that every module gets. -/
def defineBootstrapper (m : Module) : Run Module := do
  let name := TypeName.ofParts m.name systemSpace bootstrapperName
  let (ref, m) ← defineClass m name
    { declared := FlagSet.ofList [.special, .static], notCompleted := true }
  changeClass ref fun c =>
    { c with
      parent := some CoreType.object.ref
      flags := { c.flags with notCompleted := false } }
  return { m with bootstrapper := some ref }

/-- Refuses an own class without a token. -/
def checkToken (ref : ClassRef) : Run Unit := do
  let c ← ask (·.classOf ref)
  if c.token.isSet then return () else fatal (.classWithoutToken c.name.full)

/-- Links the native methods of the own classes. -/
def linkClasses (m : Module) : Run Unit := do
  let linked ← onRegistry ((← get).classes.linked m.ownClasses)
  linked.forM fun (ref, methods) => changeClass ref fun c => { c with methods }

/-- Gives an own class its layout. -/
def layOut (ref : ClassRef) : Run Unit := do
  match (← get).classes.layoutChain ref with
  | .ok chain => modify fun v => { v with classes := chain.foldl Classes.assignLayout v.classes }
  | .error cause => fatal cause

/-- Reads the version and the aspects of a module and makes its classes usable. -/
def finishModule (m : Module) (versionIndex : Int32) : Run Module := do
  let version ← answer (Version.read (← moduleString m versionIndex))
  let m := { m with version, aspects := Aspect.ofConstants m.constants }
  let m ← defineBootstrapper m
  let m ← onClasses m.distribute
  if (← get).config.validateTokens then m.ownClasses.forM checkToken
  linkClasses m
  m.ownClasses.forM layOut
  return m

/-! ## Whole modules -/

/-- Turns an image into a module, beginning with its number, name and strings. -/
def readModule (resolve : Resolver) (m : Module) (image : ModuleImage) : Run Module := do
  let m ← image.typeNames.foldlM readTypeName m
  let m := image.fieldNames.foldl readFieldName m
  let m ← image.dependencies.foldlM (readDependency resolve) m
  let m ← readClasses m image
  let m := { m with constants := ConstantTable.ofEntries image.constants }
  finishModule m image.versionIndex

/-- Marks a module as being loaded. -/
def beginLoading (name : String) : Run Unit :=
  modify fun v => { v with loading := name :: v.loading }

/-- Loads the module with the given number and name. -/
def loadNamed (resolve : Resolver) (m : Module) (image : ModuleImage) : Run ModuleId := do
  beginLoading m.name
  fun v =>
    match readModule resolve m image v with
    | .ok m v =>
      .ok m.id { v with modules := v.modules.push m, loading := v.loading.erase m.name }
    | .error e v => .error e ({ v with loading := v.loading.erase m.name }.release m.id)

/-- Loads a module from the bytes of its image. -/
def loadImage (resolve : Resolver) (bytes : Wire.Bytes) : Run ModuleId := do
  ask Vault.ensureAlive
  match ModuleImage.decode bytes with
  | .error e => fatal (.imageRejected e)
  | .ok image =>
    let id ← grantModuleId
    let strings := Table.ofList (image.strings.map fun e => (e.index, e.text))
    match strings.get? image.nameIndex with
    | none => throw (.unresolved (.stringIndex image.nameIndex "<unnamed>"))
    | some name =>
      if (← get).isLoading name then throw (.dependencyCycle name)
      else loadNamed resolve { id, name, strings } image

end Run

end VaultKernel
