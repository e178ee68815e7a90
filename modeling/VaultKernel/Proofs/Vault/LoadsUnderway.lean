import VaultKernel.Proofs.Vault.LoadOutline
import VaultKernel.Vault.Search

/-!
# The loads that are under way

A load counts the name of its module among those that are being loaded, and takes it out again when
it ends, whatever the vault is like in which it begins. Until then no other load adds a module with
this name. `KeepsUnderway` says of each stage that it leaves these names alone and gives the module
no other name; `loadImage_underway` and `resolveWithin_underway` are about whole loads and requests.
As a request changes nothing about the loads under way, it matters to a load only what its resolver
does while these are the same (`readModule_congr`).
-/

namespace VaultKernel

open Vault

variable {α β : Type} {P : α → Prop} {Q : β → Prop}

/-- The same loads are under way, and no module with the name of one of them has been added. -/
structure Vault.Undisturbed (v v' : Vault) : Prop where
  loading : v'.loading = v.loading
  newcomers : ∀ m ∈ v'.modules.toList, m ∈ v.modules.toList ∨ m.name ∉ v.loading

/-- What leaves the loading names and the modules alone disturbs no load. -/
theorem Vault.Undisturbed.of_eq {v v' : Vault} (hloading : v'.loading = v.loading)
    (hmodules : v'.modules = v.modules) : v.Undisturbed v' :=
  ⟨hloading, fun _ hm => Or.inl (hmodules ▸ hm)⟩

theorem Vault.Undisturbed.refl (v : Vault) : v.Undisturbed v := .of_eq rfl rfl

/-- What does not disturb a load may be done twice. -/
theorem Vault.Undisturbed.trans {v₁ v₂ v₃ : Vault} (h₁₂ : v₁.Undisturbed v₂)
    (h₂₃ : v₂.Undisturbed v₃) : v₁.Undisturbed v₃ := by
  refine ⟨h₂₃.loading.trans h₁₂.loading, fun m hm => ?_⟩
  rcases h₂₃.newcomers m hm with hm | hm
  · exact h₁₂.newcomers m hm
  · exact Or.inr (h₁₂.loading ▸ hm)

/-- The run does not disturb the loads that are under way, and its answers satisfy `P`. -/
def KeepsUnderway (P : α → Prop) (run : Run α) : Prop :=
  ∀ v, Ends (run v) (fun a v' => v.Undisturbed v' ∧ P a) v.Undisturbed

/-! ## Steps -/

namespace KeepsUnderway

/-- An answer disturbs no load. -/
theorem pure {a : α} (ha : P a) : KeepsUnderway P (pure a) := fun v => ⟨.refl v, ha⟩

theorem throw (e : Failure) : KeepsUnderway P (throw e) := fun v => .refl v

/-- Runs that disturb no load can follow one another. -/
theorem bind {run : Run α} {next : α → Run β} (hrun : KeepsUnderway P run)
    (hnext : ∀ a, P a → KeepsUnderway Q (next a)) : KeepsUnderway Q (run >>= next) := by
  intro v
  refine (hrun v).bind fun a v' h => ?_
  exact (hnext a h.2 v').mono (fun _ _ h' => ⟨h.1.trans h'.1, h'.2⟩) fun _ h' => h.1.trans h'

/-- Changing the answer of a run disturbs no more loads. -/
theorem map {run : Run α} {f : α → β} (hrun : KeepsUnderway (fun a => Q (f a)) run) :
    KeepsUnderway Q (f <$> run) := fun v => (hrun v).map

/-- Looking at the vault disturbs no load. -/
theorem get {next : Vault → Run α} (hnext : ∀ v, KeepsUnderway P (next v)) :
    KeepsUnderway P (get >>= next) := fun v => hnext v v

/-- A change of the vault is judged by what it does to the loading names and the modules. -/
theorem modify {f : Vault → Vault} (hf : ∀ v : Vault, v.Undisturbed (f v)) :
    KeepsUnderway (fun _ => True) (modify f) := fun v => ⟨hf v, trivial⟩

theorem answer (x : Except Failure α) : KeepsUnderway (fun _ => True) (Run.answer x) :=
  fun v => Ends.answer (fun _ _ => ⟨.refl v, trivial⟩) (.refl v)

theorem resolved (x : Except Unresolved α) : KeepsUnderway (fun _ => True) (Run.resolved x) :=
  fun v => Ends.resolved (fun _ _ => ⟨.refl v, trivial⟩) (.refl v)

theorem ask (question : Vault → Except Failure α) :
    KeepsUnderway (fun _ => True) (Run.ask question) :=
  fun v => Ends.ask (fun _ _ => ⟨.refl v, trivial⟩) (.refl v)

/-- Restating a failure disturbs no load. -/
theorem mapFailure {run : Run α} (f : Failure → Failure) (hrun : KeepsUnderway P run) :
    KeepsUnderway P (Run.mapFailure f run) := fun v => (hrun v).mapFailure

/-- A fold whose steps disturb no load disturbs none, and keeps what its steps keep. -/
theorem foldlM {f : β → α → Run β} (hf : ∀ b x, Q b → KeepsUnderway Q (f b x)) (xs : List α)
    {b : β} (hb : Q b) : KeepsUnderway Q (xs.foldlM f b) := by
  induction xs generalizing b with
  | nil => exact .pure hb
  | cons x xs ih =>
      rw [List.foldlM_cons]
      exact (hf b x hb).bind fun b' hb' => ih hb'

/-- A loop whose rounds disturb no load disturbs none. -/
theorem forM {f : α → Run PUnit} (hf : ∀ x, KeepsUnderway (fun _ => True) (f x)) (xs : List α) :
    KeepsUnderway (fun _ => True) (xs.forM f) := by
  induction xs with
  | nil => exact .pure trivial
  | cons x xs ih => exact (hf x).bind fun _ _ => ih

/-- A map whose calls disturb no load disturbs none. -/
theorem mapM {f : α → Run β} (hf : ∀ x, KeepsUnderway (fun _ => True) (f x)) (xs : List α) :
    KeepsUnderway (fun _ => True) (xs.mapM f) := by
  induction xs with
  | nil => exact .pure trivial
  | cons x xs ih =>
      rw [List.mapM_cons]
      exact (hf x).bind fun _ _ => ih.bind fun _ _ => .pure trivial

/-- An edit of the classes adds no module. -/
theorem onClasses (edit : EStateM Failure Classes α)
    (hedit : ∀ classes, Ends (edit classes) (fun a _ => P a) fun _ => True) :
    KeepsUnderway P (Run.onClasses edit) :=
  fun v => Ends.onClasses
    ((hedit v.classes).mono (fun _ _ h => ⟨.of_eq rfl rfl, h⟩) fun _ _ => .of_eq rfl rfl)

/-- The native libraries have nothing to do with the loads. -/
theorem onRegistry (linker : EStateM Failure NativeRegistry α) :
    KeepsUnderway (fun _ => True) (Run.onRegistry linker) := by
  intro v
  unfold Run.onRegistry
  split
  · exact ⟨.of_eq rfl rfl, trivial⟩
  · exact .of_eq rfl rfl

end KeepsUnderway

/-! ## Stages -/

/-- Rewriting a class disturbs no load. -/
theorem changeClass_underway (ref : ClassRef) (f : Class → Class) :
    KeepsUnderway (fun _ => True) (Run.changeClass ref f) :=
  .modify fun _ => .of_eq rfl rfl

/-- Defining a class disturbs no load and keeps the name of its module. -/
theorem defineClass_underway (m : Module) (name : TypeName) (flags : ClassFlags) :
    KeepsUnderway (fun p => p.2.name = m.name) (Run.defineClass m name flags) := by
  have hgrant : KeepsUnderway (fun _ => True) Run.grantClassId := by
    intro v
    unfold Run.grantClassId
    split
    · exact ⟨.of_eq rfl rfl, trivial⟩
    · exact .refl v
  refine hgrant.bind fun classId _ => KeepsUnderway.bind (P := fun _ => True) ?_ fun ref _ => ?_
  · exact fun v => ⟨.of_eq rfl rfl, trivial⟩
  · exact .pure rfl

/-- Entering a type name disturbs no load and keeps the name of its module. -/
theorem readTypeName_underway {n : String} (m : Module) (e : Image.TypeNameEntry)
    (hm : m.name = n) : KeepsUnderway (fun m' => m'.name = n) (Run.readTypeName m e) := by
  unfold Run.readTypeName
  refine .get fun v => ?_
  cases CoreType.find? (TypeName.ofParts e.assembly e.space e.name) with
  | some t => exact .pure ((Module.mention_frame m t.ref).1.name.trans hm)
  | none =>
      dsimp only
      split
      · refine KeepsUnderway.bind (P := fun m' => m'.name = m.name) ?_ fun m' hname =>
          .pure (hname.trans hm)
        exact (defineClass_underway m _ _).map
      · exact .pure hm

/-- Entering field names keeps the name of their module. -/
theorem name_readFieldNames (m : Module) (entries : List Image.FieldNameEntry) :
    (entries.foldl Run.readFieldName m).name = m.name := by
  induction entries generalizing m with
  | nil => rfl
  | cons e entries ih => exact ih _

/-- Entering a dependency disturbs no load, if the resolver disturbs none. -/
theorem readDependency_underway {n : String} {resolve : Resolver}
    (hresolve : ∀ name version, KeepsUnderway (fun _ => True) (resolve name version))
    (m : Module) (e : Image.DependencyEntry) (hm : m.name = n) :
    KeepsUnderway (fun m' => m'.name = n) (Run.readDependency resolve m e) := by
  unfold Run.readDependency
  refine (KeepsUnderway.answer _).bind fun version _ => ?_
  split
  · exact .pure hm
  · exact ((hresolve _ _).mapFailure _).bind fun supplied _ => .pure hm

/-- Declaring a class disturbs no load. -/
theorem declareClass_underway (m : Module) (body : Image.ClassBody) :
    KeepsUnderway (fun _ => True) (Run.declareClass m body) := by
  unfold Run.declareClass
  cases m.types.get? body.name with
  | none => exact .throw _
  | some name =>
      refine .get fun v => ?_
      cases v.ownClass? m name with
      | none => exact .throw _
      | some ref => exact (changeClass_underway _ _).bind fun _ _ => .pure trivial

/-- Completing a class disturbs no load. -/
theorem completeClass_underway (s : Symbols) (c : Run.ResolvedClass) :
    KeepsUnderway (fun _ => True) (Run.completeClass s c) := by
  unfold Run.completeClass
  refine (KeepsUnderway.mapM (fun x => .answer _) _).bind fun methods _ => .get fun v => ?_
  cases v.class? c.declared.ref with
  | none => exact .throw _
  | some _ => exact changeClass_underway _ _

/-- The check that a class is completed disturbs no load. -/
theorem checkCompleted_underway (ref : ClassRef) :
    KeepsUnderway (fun _ => True) (Run.checkCompleted ref) := by
  unfold Run.checkCompleted
  refine .get fun v => ?_
  cases v.class? ref with
  | none => exact .pure trivial
  | some c =>
      dsimp only
      split
      · exact .pure trivial
      · exact .throw _

/-- Reading the class bodies disturbs no load and keeps the name of their module. -/
theorem readClasses_underway (m : Module) (image : ModuleImage) :
    KeepsUnderway (fun m' => m'.name = m.name) (Run.readClasses m image) := by
  unfold Run.readClasses
  refine (KeepsUnderway.mapM (declareClass_underway m) _).bind fun declared _ => .get fun v => ?_
  refine (KeepsUnderway.resolved _).bind fun generics _ => ?_
  refine (KeepsUnderway.resolved _).bind fun classes _ => ?_
  refine (KeepsUnderway.resolved _).bind fun aliases _ => ?_
  refine (KeepsUnderway.forM (completeClass_underway _) _).bind fun _ _ => ?_
  exact (KeepsUnderway.forM checkCompleted_underway _).bind fun _ _ => .pure rfl

/-- Defining the bootstrapper disturbs no load and keeps the name of its module. -/
theorem defineBootstrapper_underway (m : Module) :
    KeepsUnderway (fun m' => m'.name = m.name) (Run.defineBootstrapper m) :=
  (defineClass_underway m _ _).bind fun _ hname =>
    (changeClass_underway _ _).bind fun _ _ => .pure hname

/-- Distributing the aspects disturbs no load and keeps the name of their module. -/
theorem distribute_underway (m : Module) :
    KeepsUnderway (fun m' => m'.name = m.name) (Run.onClasses m.distribute) := by
  refine .onClasses _ fun classes => ?_
  refine Ends.bind (R := fun _ _ => True) ?_ fun rest _ _ => rfl
  exact ends_iff.2 trivial

/-- Checking a token disturbs no load. -/
theorem checkToken_underway (ref : ClassRef) :
    KeepsUnderway (fun _ => True) (Run.checkToken ref) := by
  unfold Run.checkToken
  refine (KeepsUnderway.ask _).bind fun c _ => ?_
  split
  · exact .pure trivial
  · exact .throw _

/-- Linking the native methods disturbs no load. -/
theorem linkClasses_underway (m : Module) : KeepsUnderway (fun _ => True) (Run.linkClasses m) :=
  .get fun _ => (KeepsUnderway.onRegistry _).bind fun _ _ =>
    .forM (fun _ => changeClass_underway _ _) _

/-- Laying out a class disturbs no load. -/
theorem layOut_underway (ref : ClassRef) : KeepsUnderway (fun _ => True) (Run.layOut ref) := by
  unfold Run.layOut
  refine .get fun v => ?_
  cases v.classes.layoutChain ref with
  | error cause => exact .throw _
  | ok chain => exact .modify fun _ => .of_eq rfl rfl

/-- Finishing a module disturbs no load and keeps its name. -/
theorem finishModule_underway (m : Module) (versionIndex : Int32) :
    KeepsUnderway (fun m' => m'.name = m.name) (Run.finishModule m versionIndex) := by
  unfold Run.finishModule
  have hstring : KeepsUnderway (fun _ => True) (Run.moduleString m versionIndex) := by
    unfold Run.moduleString
    split
    · exact .pure trivial
    · exact .throw _
  have hlast : ∀ m' : Module, m'.name = m.name → KeepsUnderway (fun m' => m'.name = m.name)
      (do Run.linkClasses m'; m'.ownClasses.forM Run.layOut; return m' : Run Module) :=
    fun m' hm' => (linkClasses_underway m').bind fun _ _ =>
      (KeepsUnderway.forM layOut_underway _).bind fun _ _ => .pure hm'
  refine hstring.bind fun text _ => (KeepsUnderway.answer _).bind fun version _ => ?_
  refine (defineBootstrapper_underway _).bind fun m₁ hm₁ => ?_
  refine (distribute_underway m₁).bind fun m₂ hm₂ => .get fun v => ?_
  split
  · exact (KeepsUnderway.forM checkToken_underway _).bind fun _ _ => hlast m₂ (hm₂.trans hm₁)
  · exact hlast m₂ (hm₂.trans hm₁)

/-! ## Loads and requests -/

/-- Entering all type names disturbs no load and keeps the name of their module. -/
theorem readTypeNames_underway (m : Module) (entries : List Image.TypeNameEntry) :
    KeepsUnderway (fun m' => m'.name = m.name) (entries.foldlM Run.readTypeName m) :=
  .foldlM readTypeName_underway entries rfl

/-- Entering all dependencies disturbs no load, if the resolver disturbs none. -/
theorem readDependencies_underway {resolve : Resolver}
    (hresolve : ∀ name version, KeepsUnderway (fun _ => True) (resolve name version)) (m : Module)
    (entries : List Image.DependencyEntry) :
    KeepsUnderway (fun m' => m'.name = m.name) (entries.foldlM (Run.readDependency resolve) m) :=
  .foldlM (readDependency_underway hresolve) entries rfl

/-- A load asks for its dependencies while the same loads are under way as in the beginning. -/
theorem Run.Requests.underway {resolve : Resolver}
    (hresolve : ∀ name version, KeepsUnderway (fun _ => True) (resolve name version))
    {m m' : Module}
    {image : ModuleImage} {v w : Vault} {e : Image.DependencyEntry} {version : Version}
    (h : Run.Requests resolve m image v e version m' w) : v.Undisturbed w := by
  obtain ⟨m₁, v₁, hnames, hasks⟩ := h
  obtain ⟨before, after, _, hearlier⟩ := hasks.earlier
  have hnamed := readTypeNames_underway m image.typeNames v
  rw [hnames] at hnamed
  have hasked := readDependencies_underway hresolve
    (image.fieldNames.foldl Run.readFieldName m₁) before v₁
  rw [hearlier] at hasked
  exact hnamed.1.trans hasked.1

/-- Reading a module disturbs no load and keeps its name, if the resolver disturbs none. -/
theorem readModule_underway {resolve : Resolver}
    (hresolve : ∀ name version, KeepsUnderway (fun _ => True) (resolve name version)) (m : Module)
    (image : ModuleImage) :
    KeepsUnderway (fun m' => m'.name = m.name) (Run.readModule resolve m image) := by
  unfold Run.readModule
  refine (readTypeNames_underway m _).bind fun m₁ hm₁ => ?_
  refine (readDependencies_underway hresolve _ _).bind fun m₂ hm₂ => ?_
  rw [name_readFieldNames, hm₁] at hm₂
  refine (readClasses_underway m₂ image).bind fun m₃ hm₃ => ?_
  rw [← hm₂, ← hm₃]
  exact finishModule_underway _ _

/-- The stages of a load add no module with its name. -/
theorem Vault.Begins.undisturbed {v v' w : Vault} {bytes : Wire.Bytes} {image : ModuleImage}
    {m : Module} (hb : v.Begins bytes image m w) (h : w.Undisturbed v') :
    v'.loading = m.name :: v.loading ∧
      ∀ m' ∈ v'.modules.toList, m' ∈ v.modules.toList ∨ m'.name ∉ m.name :: v.loading := by
  have hmodules : w.modules = v.modules := by rw [hb.begun]
  have hloading : w.loading = m.name :: v.loading := by rw [hb.begun]
  rw [← hmodules, ← hloading]
  exact ⟨h.loading, h.newcomers⟩

/-- A load ends with the loads under way with which it began. -/
theorem loadImage_underway {resolve : Resolver}
    (hresolve : ∀ name version, KeepsUnderway (fun _ => True) (resolve name version))
    (bytes : Wire.Bytes) : KeepsUnderway (fun _ => True) (Run.loadImage resolve bytes) := by
  intro v
  have houtline := loadImage_outline resolve bytes v
  generalize Run.loadImage resolve bytes v = result at houtline
  cases houtline with
  | refused => exact .of_eq rfl rfl
  | cyclic => exact .of_eq rfl rfl
  | @completed image m m' w v' hb hread =>
      have hstages := readModule_underway hresolve m image w
      rw [hread] at hstages
      obtain ⟨hundisturbed, hname⟩ := hstages
      obtain ⟨hloading, hnewcomers⟩ := hb.undisturbed hundisturbed
      refine ⟨⟨?_, fun m'' hm'' => ?_⟩, trivial⟩
      · show v'.loading.erase m'.name = v.loading
        rw [hloading, hname, List.erase_cons_head]
      · rcases List.mem_append.1 (Array.toList_push ▸ hm'') with hm'' | hm''
        · exact (hnewcomers m'' hm'').imp_right fun h hmem => h (List.mem_cons_of_mem _ hmem)
        · rw [List.mem_singleton.1 hm'', hname]
          exact Or.inr hb.fresh
  | @abandoned image m w v' e hb hread =>
      have hstages := readModule_underway hresolve m image w
      rw [hread] at hstages
      obtain ⟨hloading, hnewcomers⟩ := hb.undisturbed hstages
      refine ⟨?_, fun m'' hm'' => ?_⟩
      · show v'.loading.erase m.name = v.loading
        rw [hloading, List.erase_cons_head]
      · exact (hnewcomers m'' hm'').imp_right fun h hmem => h (List.mem_cons_of_mem _ hmem)

/-- A request disturbs no load that is under way, however deep it goes. -/
theorem resolveWithin_underway (s : Searcher) (depth : Nat) (name : String) (version : Version) :
    KeepsUnderway (fun _ => True) (s.resolveWithin depth name version) := by
  induction depth generalizing name version with
  | zero => exact .throw _
  | succ depth ih =>
      refine .get fun v => ?_
      cases v.findModule? name version with
      | some id => exact .pure trivial
      | none =>
          dsimp only
          split
          · exact .throw _
          · refine (KeepsUnderway.answer _).bind fun bytes _ => ?_
            refine (loadImage_underway ih bytes).bind fun id _ => .get fun v' => ?_
            cases v'.module? id with
            | none => exact .throw _
            | some m =>
                dsimp only
                split
                · exact .pure trivial
                · exact .throw _

/-! ## Resolvers that agree -/

/-- Two runs agree if they begin alike and go on alike from what the first one leaves. -/
theorem bind_congr_run {σ ε : Type} {x x' : EStateM ε σ α} {f f' : α → EStateM ε σ β} {s : σ}
    (hx : x s = x' s) (hf : ∀ a s', x s = .ok a s' → f a s' = f' a s') :
    (x >>= f) s = (x' >>= f') s := by
  refine of_bind (P := fun result => result = (x' >>= f') s) (fun a s' hrun => ?_)
    fun e s' hrun => ?_
  · exact (bind_of_eq_ok (hx ▸ hrun) (hf a s' hrun).symm).symm
  · exact (bind_of_eq_error (hx ▸ hrun)).symm

variable {resolve resolve' : Resolver} {names : List String} {v : Vault}

/-- A dependency is read alike by resolvers that agree on the vault at hand. -/
theorem readDependency_congr
    (hagree : ∀ name version, resolve name version v = resolve' name version v) (m : Module)
    (e : Image.DependencyEntry) :
    Run.readDependency resolve m e v = Run.readDependency resolve' m e v := by
  refine bind_congr_run rfl fun version v' hanswer => ?_
  obtain ⟨_, rfl⟩ := answer_eq_ok hanswer
  split
  · rfl
  · refine bind_congr_run ?_ fun _ _ _ => rfl
    unfold Run.mapFailure
    rw [hagree]

/-- A fold over the dependencies asks only while the same loads are under way. -/
theorem readDependencies_congr
    (hresolve : ∀ name version, KeepsUnderway (fun _ => True) (resolve' name version))
    (hagree : ∀ v, v.loading = names →
      ∀ name version, resolve name version v = resolve' name version v)
    (hv : v.loading = names) (m : Module) (entries : List Image.DependencyEntry) :
    entries.foldlM (Run.readDependency resolve) m v =
      entries.foldlM (Run.readDependency resolve') m v := by
  induction entries generalizing m v with
  | nil => rfl
  | cons e entries ih =>
      have hfirst := readDependency_congr (hagree v hv) m e
      rw [List.foldlM_cons, List.foldlM_cons]
      refine bind_congr_run hfirst fun m' v' hrun => ih ?_ m'
      have hkept := readDependency_underway hresolve m e rfl v
      rw [← hfirst, hrun] at hkept
      exact hkept.1.loading.trans hv

/-- Resolvers that do the same while the same loads are under way make no difference to a load. -/
theorem readModule_congr
    (hresolve : ∀ name version, KeepsUnderway (fun _ => True) (resolve' name version))
    (hagree : ∀ v, v.loading = names →
      ∀ name version, resolve name version v = resolve' name version v)
    (hv : v.loading = names) (m : Module) (image : ModuleImage) :
    Run.readModule resolve m image v = Run.readModule resolve' m image v := by
  refine bind_congr_run rfl fun m₁ v₁ hnames => ?_
  have hkept := readTypeNames_underway m image.typeNames v
  rw [hnames] at hkept
  refine bind_congr_run ?_ fun _ _ _ => rfl
  exact readDependencies_congr hresolve hagree (hkept.1.loading.trans hv) _ _

/-- A load ends alike whenever its stages do. -/
theorem loadNamed_congr {m : Module} {image : ModuleImage}
    (hread : Run.readModule resolve m image { v with loading := m.name :: v.loading } =
      Run.readModule resolve' m image { v with loading := m.name :: v.loading }) :
    Run.loadNamed resolve m image v = Run.loadNamed resolve' m image v := by
  refine bind_congr_run rfl fun _ _ hbegin => ?_
  cases hbegin
  dsimp only
  rw [hread]

/-- A load asks its resolver only once it has begun. -/
theorem loadImage_congr {bytes : Wire.Bytes}
    (hbegun : ∀ image m w, v.Begins bytes image m w →
      Run.readModule resolve m image w = Run.readModule resolve' m image w) :
    Run.loadImage resolve bytes v = Run.loadImage resolve' bytes v := by
  refine bind_congr_run rfl fun _ w hask => ?_
  obtain ⟨_, rfl⟩ := ask_eq_ok hask
  cases hdecode : ModuleImage.decode bytes with
  | error e => rfl
  | ok image =>
      refine bind_congr_run rfl fun id w' hgrant => ?_
      obtain ⟨tokens, hnext, rfl⟩ := grantModuleId_eq_ok hgrant
      cases hname : (Table.ofList (image.strings.map fun e => (e.index, e.text))).get?
          image.nameIndex with
      | none => rfl
      | some name =>
          refine bind_congr_run rfl fun u _ hget => ?_
          cases hget
          cases hloading : ({ w with tokens } : Vault).isLoading name with
          | true => rfl
          | false =>
              refine loadNamed_congr (hbegun image _ _ ⟨hdecode, hname, ?_, rfl, hnext, rfl⟩)
              simpa [isLoading] using hloading

end VaultKernel
