import VaultKernel.Class.Predefined
import VaultKernel.Failure.Basic
import VaultKernel.Frame
import VaultKernel.Module
import VaultKernel.Object

/-!
# Vaults

A vault is the isolated state of a runtime: the heap, the classes, the loaded modules and the call
frames. Operations that change it are computations in `Run`, which keep the state that a failure
leaves behind; the others are functions of the vault.
-/

namespace VaultKernel

/-- The settings of a vault. -/
structure VaultConfig where
  name : String := "vault"
  heap : HeapLimits := {}
  /-- Directories in which dependencies are looked for. -/
  searchPaths : List String := []
  /-- Whether a loaded class must have a token. -/
  validateTokens : Bool := true
  deriving DecidableEq, Repr

/-- The heap counters when a vault is disposed. -/
structure DisposeReport where
  aliveObjects : Nat
  aliveBytes : UInt64
  bytesRequested : UInt64
  deriving DecidableEq, Repr

/-- The wording of a report. -/
def DisposeReport.text (r : DisposeReport) : String :=
  Text.natural r.aliveObjects ++ " objects alive (" ++ Text.natural r.aliveBytes.toNat
    ++ " bytes), " ++ Text.natural r.bytesRequested.toNat ++ " bytes requested"

/-- The state of a runtime. -/
structure Vault where
  config : VaultConfig
  heap : Heap Object
  classes : Classes
  /-- The loaded modules in order of loading. -/
  modules : Array Module := #[]
  frames : Arena Frame
  systemFrames : List (String × FrameRef)
  registry : NativeRegistry
  tokens : TokenCounter
  /-- Names of the modules that are being loaded. -/
  loading : List String := []
  /-- The object that is alive as long as the vault. -/
  sentinel : ObjectRef
  /-- The report of a disposed vault. -/
  disposed : Option DisposeReport := none

/-- A computation that may change a vault and may fail. -/
abbrev Run := EStateM Failure Vault

namespace Run

/-- Ends with a fatal condition. -/
def fatal {α : Type} (cause : Fatal) : Run α := throw (.fatal cause)

/-- Answers a question about the vault. -/
def ask {α : Type} (question : Vault → Except Failure α) : Run α := fun v =>
  match question v with
  | .ok a => .ok a v
  | .error e => .error e v

/-- Runs a computation on the registry of the vault. -/
def onRegistry {α : Type} (linker : EStateM Failure NativeRegistry α) : Run α := fun v =>
  match linker v.registry with
  | .ok a registry => .ok a { v with registry }
  | .error e registry => .error e { v with registry }

/-- Runs a computation on the classes of the vault. -/
def onClasses {α : Type} (edit : EStateM Failure Classes α) : Run α := fun v =>
  match edit v.classes with
  | .ok a classes => .ok a { v with classes }
  | .error e classes => .error e { v with classes }

/-- Fails with another failure where the computation fails. -/
def mapFailure {α : Type} (f : Failure → Failure) (run : Run α) : Run α := fun v =>
  match run v with
  | .ok a v => .ok a v
  | .error e v => .error (f e) v

end Run

/-- Adds the frames of the runtime. -/
def Frame.installSystem : Arena Frame × List (String × FrameRef) :=
  Frame.systemNames.foldl (fun (frames, names) name =>
    let (ref, frames) := frames.allocate Frame.owner { parent := none, method := .system name }
    (frames, names ++ [(name, ref)])) ({}, [])

namespace Vault

/-- A new vault with the predefined classes, the system frames and the sentinel. -/
def create (config : VaultConfig) (registry : NativeRegistry) : Except Failure Vault := do
  let tokens : TokenCounter := { lastModule := CoreType.owner }
  let (tokens, classes) ← (CoreType.install tokens).mapError .fatal
  let heap : Heap Object := .empty config.heap
  match heap.allocateImmortal (Object.blank CoreType.object.ref 0) 0 with
  | .ok sentinel heap =>
    let (frames, systemFrames) := Frame.installSystem
    return { config, heap, classes, frames, systemFrames, registry, tokens, sentinel }
  | .error e _ => .error (.heap e)

/-! ## Modules and classes -/

/-- Refuses a disposed vault. -/
def ensureAlive (v : Vault) : Except Failure Unit :=
  if v.disposed.isSome then .error (.fatal (.vaultDisposed v.config.name)) else .ok ()

/-- The loaded module with a number. -/
def module? (v : Vault) (id : ModuleId) : Option Module := v.modules.find? (·.id = id)

/-- The first loaded module with a name and version. -/
def findModule? (v : Vault) (name : String) (version : Version) : Option ModuleId :=
  (v.modules.find? fun m => m.name = name && m.version = version).map (·.id)

/-- Whether a module with this name is being loaded. -/
def isLoading (v : Vault) (name : String) : Bool := name ∈ v.loading

/-- The descriptor of a class. -/
def class? (v : Vault) (ref : ClassRef) : Option Class := v.classes.get? ref

/-- The descriptor of a class that must be there. -/
def classOf (v : Vault) (ref : ClassRef) : Except Failure Class :=
  match v.class? ref with
  | some c => .ok c
  | none => .error (.fatal (.classGone ref))

/-- Stands for the name of a class that was removed. -/
def freedName (ref : ClassRef) : String := "<freed " ++ ref.entryText ++ ">"

/-- The full name of a class. -/
def className (v : Vault) (ref : ClassRef) : String :=
  match v.class? ref with
  | some c => c.name.full
  | none => freedName ref

/-- The name of a class without its assembly. -/
def classNameWithSpace (v : Vault) (ref : ClassRef) : String :=
  match v.class? ref with
  | some c => c.name.withSpace
  | none => freedName ref

/-- The descriptor of a method. -/
def method? (v : Vault) (m : MethodRef) : Option Method := do
  (← v.class? m.owner).methods[m.index]?

/-- The class that a query names by its short name, its name with its space, or its full name.
Predefined classes come first, then the own classes of the modules in order of loading. -/
def findType? (v : Vault) (query : String) : Option ClassRef :=
  match CoreType.find? ⟨query⟩ with
  | some t => some t.ref
  | none =>
    (CoreType.all.map CoreType.ref ++ v.modules.toList.flatMap Module.ownClasses).find? fun ref =>
      match v.class? ref with
      | some c => c.name.isNamed query
      | none => false

/-- The class with a token. -/
def findToken? (v : Vault) (token : Token) : Option ClassRef :=
  if token.isSet then (v.classes.toList.find? fun (_, c) => c.token = token).map (·.1) else none

/-- The name of the method with which a program begins. -/
def entryPointName : String := "master"

/-- Whether a program can begin with a method. -/
def isEntryPoint (m : Method) : Bool :=
  m.name = entryPointName && m.flags.has .openAccess && m.flags.has .static && m.arguments.isEmpty

/-- The place of the entry point in a class. -/
def entryPointIn? (v : Vault) (ref : ClassRef) : Option MethodRef := do
  let index ← (← v.class? ref).methods.findIdx? isEntryPoint
  return ⟨ref, index⟩

/-- The method with which the program of a module begins. -/
def entryPoint (v : Vault) (id : ModuleId) : Except Failure MethodRef :=
  match v.module? id with
  | none => .error (.fatal (.entryOfUnknownModule id))
  | some m =>
    match m.ownClasses.findSome? v.entryPointIn? with
    | some entry => .ok entry
    | none => .error (.fatal (.entryPointMissing m.name))

/-- Whether `source` is `target` or descends from it. -/
def isAssignable (v : Vault) (source target : ClassRef) : Bool :=
  v.classes.isAssignable source target

/-- The slot of a field in the instances of a class. -/
def fieldOffset (v : Vault) (ref : ClassRef) (name : String) : Except Failure Nat := do
  let c ← v.classOf ref
  match c.layout with
  | none => .error (.fatal (.layoutMissing c.name.full))
  | some layout =>
    match layout.offset? name with
    | some offset => .ok offset
    | none => .error (.fatal (.fieldMissing name c.name.full))

/-- The form of a vault in diagnostics. -/
def annotated (v : Vault) : String :=
  let s := v.heap.stats
  "Vault \x7b name: " ++ Text.quoted v.config.name ++ ", modules: "
    ++ Text.natural v.modules.size ++ ", classes: " ++ Text.natural v.classes.size
    ++ ", heap: GcStats \x7b alive_objects: " ++ Text.natural s.aliveObjects ++ ", alive_bytes: "
    ++ Text.natural s.aliveBytes.toNat ++ ", total_allocations: " ++ Text.natural s.allocations
    ++ ", total_frees: " ++ Text.natural s.frees ++ ", total_bytes_requested: "
    ++ Text.natural s.bytesRequested.toNat ++ ", collections: " ++ Text.natural s.collections
    ++ ", last_reclaimed: " ++ Text.natural s.lastReclaimed ++ " \x7d \x7d"

end Vault

end VaultKernel
