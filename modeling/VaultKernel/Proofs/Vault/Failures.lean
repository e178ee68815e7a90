import VaultKernel.Proofs.Vault.LoadOutline

/-!
# Which stages report a cycle

A load fails with a cycle only because its resolver did: no other stage can. `FailsOnly Plain` says
so of each of them, and `loadImage_eq_cycle` finds the request that was answered with the cycle.
Stages that only read the image can do nothing but reject it (`FailsOnly Rejection`).
-/

namespace VaultKernel

/-- A failure for which an image is to blame: it refers to something in vain, or a condition is
fatal that is no corruption of the vault. -/
inductive Failure.Rejection : Failure → Prop where
  | unresolved (what : Unresolved) : Rejection (.unresolved what)
  | fatal {cause : Fatal} : cause.code ≠ .stateCorrupt → Rejection (.fatal cause)

/-- An image that is rejected is not rejected for a cycle. -/
theorem Failure.Rejection.plain {e : Failure} (h : e.Rejection) : e.Plain := by
  cases h with
  | unresolved what => exact plain_unresolved what
  | fatal => exact plain_fatal _

open Failure

variable {α β : Type} {P : Failure → Prop} {m : Module}

/-! ## Steps -/

/-- A stage that only rejects reports no cycle. -/
theorem FailsOnly.plain {run : EStateM Failure β α} (hrun : FailsOnly Rejection run) :
    FailsOnly Plain run :=
  fun s e s' h => (hrun s e s' h).plain

theorem FailsOnly.throw {e : Failure} (he : P e) : FailsOnly P (throw e : Run α) := by
  intro v e' v' h
  cases h
  exact he

theorem FailsOnly.fatal (cause : Fatal) : FailsOnly Plain (Run.fatal cause : Run α) :=
  .throw (plain_fatal cause)

/-- An answer that is put into a run fails as the answer does. -/
theorem FailsOnly.answer {x : Except Failure α} (hx : ∀ e, x = .error e → P e) :
    FailsOnly P (Run.answer x) := by
  intro v e v' h
  exact hx e (answer_eq_error h).1

/-- A failed resolution is the fault of the image. -/
theorem FailsOnly.resolved (x : Except Unresolved α) : FailsOnly Rejection (Run.resolved x) := by
  cases x with
  | ok a => exact .pure a
  | error e => exact .throw (.unresolved e)

theorem FailsOnly.get {next : Vault → Run α} (hnext : ∀ v, FailsOnly P (next v)) :
    FailsOnly P (get >>= next) := fun v => hnext v v

/-- An edit of the classes fails in the vault as it does on its own. -/
theorem FailsOnly.onClasses {edit : EStateM Failure Classes α} (hedit : FailsOnly P edit) :
    FailsOnly P (Run.onClasses edit) := by
  intro v e v' h
  unfold Run.onClasses at h
  split at h
  · cases h
  · next hfailed =>
      cases h
      exact hedit _ _ _ hfailed

/-- Linking fails in the vault as it does on its own. -/
theorem FailsOnly.onRegistry {linker : EStateM Failure NativeRegistry α}
    (hlinker : FailsOnly P linker) : FailsOnly P (Run.onRegistry linker) := by
  intro v e v' h
  unfold Run.onRegistry at h
  split at h
  · cases h
  · next hfailed =>
      cases h
      exact hlinker _ _ _ hfailed

theorem FailsOnly.modify (f : Vault → Vault) : FailsOnly P (modify f : Run PUnit) := by
  intro v e v' h
  cases h

/-- A version that cannot be read is the fault of the image. -/
theorem Version.read_rejection {text : String} {e : Failure} (h : Version.read text = .error e) :
    e.Rejection := by
  unfold Version.read at h
  split at h
  · cases h
  · cases h
    exact .fatal nofun

/-- Defining a class fails without a cycle. -/
theorem defineClass_plain (m : Module) (name : TypeName) (flags : ClassFlags) :
    FailsOnly Plain (Run.defineClass m name flags) := by
  unfold Run.defineClass
  refine FailsOnly.bind ?_ fun classId => FailsOnly.bind ?_ fun ref => .pure _
  · intro v e v' h
    unfold Run.grantClassId at h
    split at h
    · cases h
    · cases h
      exact plain_fatal _
  · intro v e v' h
    cases h

/-! ## Tables -/

/-- Entering a type name fails without a cycle. -/
theorem readTypeName_plain (m : Module) (e : Image.TypeNameEntry) :
    FailsOnly Plain (Run.readTypeName m e) := by
  unfold Run.readTypeName
  refine .get fun v => ?_
  cases CoreType.find? (TypeName.ofParts e.assembly e.space e.name) with
  | some t => exact .pure _
  | none =>
      dsimp only
      split
      · exact FailsOnly.bind (.map _ (defineClass_plain _ _ _)) fun _ => .pure _
      · exact .pure _

/-! ## Classes -/

/-- Declaring a class fails only by rejecting its body. -/
theorem declareClass_rejection (m : Module) (body : Image.ClassBody) :
    FailsOnly Rejection (Run.declareClass m body) := by
  unfold Run.declareClass
  cases m.types.get? body.name with
  | none => exact .throw (.unresolved _)
  | some name =>
      refine .get fun v => ?_
      cases v.ownClass? m name with
      | none => exact .throw (.unresolved _)
      | some ref => exact FailsOnly.bind (.modify _) fun _ => .pure _

/-- A catch type fails only by rejection. -/
theorem Symbols.catchType_rejection {s : Symbols} {index : Int32} {e : Failure}
    (h : s.catchType index = .error e) : e.Rejection := by
  unfold Symbols.catchType at h
  split at h
  · cases h
  · split at h
    · cases h
    · cases h
      exact .unresolved _

/-- A protected zone fails only by rejection. -/
theorem Symbols.zone_rejection {s : Symbols} {z : Image.Zone} {e : Failure}
    (h : s.zone z = .error e) : e.Rejection := by
  rcases bind_eq_error.1 h with h | ⟨_, _, h⟩
  · obtain ⟨_, _, h⟩ := exists_of_mapM_eq_error h
    exact Symbols.catchType_rejection h
  · cases h

/-- A method header fails only by rejection. -/
theorem ResolvedMethod.header_rejection {x : ResolvedMethod} {s : Symbols} {e : Failure}
    (h : x.header s = .error e) : e.Rejection := by
  unfold ResolvedMethod.header at h
  split at h
  · cases h
    exact .fatal nofun
  · rcases bind_eq_error.1 h with h | ⟨_, _, h⟩
    · obtain ⟨_, _, h⟩ := exists_of_mapM_eq_error h
      exact Symbols.zone_rejection h
    · cases h

/-- A method fails only by rejection. -/
theorem ResolvedMethod.complete_rejection {x : ResolvedMethod} {s : Symbols} {e : Failure}
    (h : x.complete s = .error e) : e.Rejection := by
  unfold ResolvedMethod.complete at h
  split at h
  · rcases bind_eq_error.1 h with h | ⟨_, _, h⟩ <;> cases h
  · rcases bind_eq_error.1 h with h | ⟨_, _, h⟩
    · exact header_rejection (map_eq_error.1 h)
    · cases h

/-- The methods of a class fail only by rejection. -/
theorem completeMethods_rejection (s : Symbols) (xs : List ResolvedMethod) :
    FailsOnly Rejection (xs.mapM fun x => Run.answer (x.complete s)) :=
  .mapM (fun _ => .answer fun _ => ResolvedMethod.complete_rejection) _

/-- Completing a class fails without a cycle. -/
theorem completeClass_plain (s : Symbols) (c : Run.ResolvedClass) :
    FailsOnly Plain (Run.completeClass s c) := by
  unfold Run.completeClass
  refine FailsOnly.bind (completeMethods_rejection s _).plain fun methods => .get fun v => ?_
  cases v.class? c.declared.ref with
  | none => exact .fatal _
  | some _ => exact .modify _

/-- A class that is not completed is rejected. -/
theorem checkCompleted_rejection (ref : ClassRef) :
    FailsOnly Rejection (Run.checkCompleted ref) := by
  unfold Run.checkCompleted
  refine .get fun v => ?_
  cases v.class? ref with
  | none => exact .pure _
  | some c =>
      dsimp only
      split
      · exact .pure _
      · exact .throw (.fatal nofun)

/-- Reading the class bodies fails without a cycle. -/
theorem readClasses_plain (m : Module) (image : ModuleImage) :
    FailsOnly Plain (Run.readClasses m image) := by
  unfold Run.readClasses
  refine FailsOnly.bind (.mapM (fun body => (declareClass_rejection m body).plain) _)
    fun declared => .get fun v => ?_
  refine FailsOnly.bind (FailsOnly.resolved _).plain fun generics => ?_
  refine FailsOnly.bind (FailsOnly.resolved _).plain fun classes => ?_
  refine FailsOnly.bind (FailsOnly.resolved _).plain fun aliases => ?_
  refine FailsOnly.bind (.forM (completeClass_plain _) _) fun _ => ?_
  exact FailsOnly.bind (.forM (fun ref => (checkCompleted_rejection ref).plain) _) fun _ => .pure _

/-! ## Finishing -/

/-- An aspect that finds no place fails without a cycle. -/
theorem attachOne_plain (m : Module) (aspect : Aspect) : FailsOnly Plain (m.attachOne aspect) := by
  intro classes e classes' h
  unfold Module.attachOne at h
  split at h
  · cases h
  · split at h
    · cases h
    · split at h
      · cases h
        intro n hn
        cases hn
      · split at h <;> cases h

/-- A row of aspects fails without a cycle. -/
theorem attachAll_plain (m : Module) (aspects : List Aspect) :
    FailsOnly Plain (m.attachAll aspects) := by
  induction aspects with
  | nil => exact .pure _
  | cons aspect rest ih =>
      exact (attachOne_plain m aspect).bind fun _ => ih.bind fun _ => .pure _

/-- A native method without a target does not count as a corruption of the vault. -/
theorem Method.nativeTarget_code {x : Method} {cause : Fatal} (h : x.nativeTarget = .error cause) :
    cause.code ≠ .stateCorrupt := by
  unfold Method.nativeTarget at h
  split at h
  · cases h
    nofun
  · split at h
    · split at h
      · cases h
      · cases h
        nofun
    · cases h
      nofun

/-- A native method is bound or rejected. -/
theorem Method.bind_rejection (x : Method) (place : MethodRef) :
    FailsOnly Rejection (x.bind place) := by
  intro registry e registry' h
  unfold Method.bind at h
  split at h
  · next cause htarget =>
      cases h
      exact .fatal (Method.nativeTarget_code htarget)
  · split at h
    · dsimp only at h
      split at h <;> cases h
    · split at h <;> cases h

/-- The native methods of a class are bound or one of them is rejected. -/
theorem linkMethods_rejection (owner : ClassRef) (index : Nat) (methods : List Method) :
    FailsOnly Rejection (linkMethods owner index methods) := by
  induction methods generalizing index with
  | nil => exact .pure _
  | cons x rest ih =>
      refine FailsOnly.bind ?_ fun _ => (ih _).bind fun _ => .pure _
      unfold Method.link
      split
      · exact (x.bind_rejection _).bind fun _ => .pure _
      · exact .pure _

/-- Linking looks up the classes of the module only, and rejects what is not there. -/
theorem Classes.linked_rejection (classes : Classes) (refs : List ClassRef) :
    FailsOnly Rejection (classes.linked refs) := by
  induction refs with
  | nil => exact .pure _
  | cons ref rest ih =>
      unfold Classes.linked
      split
      · exact (linkMethods_rejection _ _ _).bind fun _ => ih.bind fun _ => .pure _
      · exact ih

/-- Linking a module fails only by rejection. -/
theorem linkClasses_rejection (m : Module) : FailsOnly Rejection (Run.linkClasses m) := by
  unfold Run.linkClasses
  exact .get fun v => FailsOnly.bind (.onRegistry (Classes.linked_rejection _ _)) fun _ =>
    .forM (fun _ => .modify _) _

/-- A text that the module lacks is the fault of the image. -/
theorem moduleString_rejection (m : Module) (index : Int32) :
    FailsOnly Rejection (Run.moduleString m index) := by
  unfold Run.moduleString
  split
  · exact .pure _
  · exact .throw (.unresolved _)

/-- A token that does not lead back to its class is no cycle. -/
theorem checkToken_plain (ref : ClassRef) : FailsOnly Plain (Run.checkToken ref) := by
  unfold Run.checkToken
  refine FailsOnly.bind ?_ fun c => ?_
  · intro v e v' h
    have hanswer := (ask_eq_error h).1
    unfold Vault.classOf at hanswer
    split at hanswer
    · cases hanswer
    · cases hanswer
      exact plain_fatal _
  · split
    · exact .pure _
    · exact .fatal _

/-- Laying out a class fails without a cycle. -/
theorem layOut_plain (ref : ClassRef) : FailsOnly Plain (Run.layOut ref) := by
  unfold Run.layOut
  refine .get fun v => ?_
  cases v.classes.layoutChain ref with
  | error cause => exact .fatal _
  | ok chain =>
      intro v e v' h
      cases h

/-- Finishing a module fails without a cycle. -/
theorem finishModule_plain (m : Module) (versionIndex : Int32) :
    FailsOnly Plain (Run.finishModule m versionIndex) := by
  unfold Run.finishModule
  have hboot : ∀ m, FailsOnly Plain (Run.defineBootstrapper m) := fun m =>
    (defineClass_plain _ _ _).bind fun _ => FailsOnly.bind (.modify _) fun _ => .pure _
  have hlast : ∀ m : Module, FailsOnly Plain
      (do Run.linkClasses m; m.ownClasses.forM Run.layOut; return m : Run Module) := fun m =>
    FailsOnly.bind (linkClasses_rejection m).plain fun _ =>
      FailsOnly.bind (.forM layOut_plain _) fun _ => .pure _
  refine FailsOnly.bind (moduleString_rejection _ _).plain fun text => ?_
  refine FailsOnly.bind (.answer fun _ h => (Version.read_rejection h).plain) fun version => ?_
  refine (hboot _).bind fun m₁ => ?_
  refine FailsOnly.bind (.onClasses ((attachAll_plain _ _).bind fun _ => .pure _)) fun m₂ => ?_
  refine .get fun v => ?_
  split
  · exact FailsOnly.bind (.forM checkToken_plain _) fun _ => hlast m₂
  · exact hlast m₂

/-! ## Dependencies -/

/-- A dependency reports a cycle only if its request did. -/
theorem dependencyFailure_eq_cycle {name module n : String} {version : Version} {e : Failure}
    (h : Run.dependencyFailure name version module e = .dependencyCycle n) :
    e = .dependencyCycle n := by
  unfold Run.dependencyFailure at h
  split at h
  · exact h
  · cases h
  · cases h

/-- A dependency fails because its version cannot be read or the resolver fails. -/
theorem readDependency_eq_error {resolve : Resolver} {e : Image.DependencyEntry} {v v' : Vault}
    {failure : Failure} (h : Run.readDependency resolve m e v = .error failure v') :
    failure.Rejection ∨ ∃ version reason, Version.read e.version = .ok version ∧
      (m.dependencies.any fun d => d.name = e.name && d.version = version) = false ∧
      resolve e.name version v = .error reason v' ∧
      failure = Run.dependencyFailure e.name version m.name reason := by
  rcases bind_error_cases h with h | ⟨version, w, hanswer, hrest⟩
  · exact Or.inl (Version.read_rejection (answer_eq_error h).1)
  · obtain ⟨hversion, rfl⟩ := answer_eq_ok hanswer
    split at hrest
    · cases hrest
    · next hlisted =>
        rcases bind_error_cases hrest with h | ⟨_, _, _, h⟩
        · unfold Run.mapFailure at h
          split at h
          · cases h
          · next e' v' hresolve =>
              cases h
              exact Or.inr ⟨version, e', hversion, by simpa using hlisted, hresolve, rfl⟩
        · cases h

/-- Reading a dependency reports a cycle only if the request that it makes does. -/
theorem readDependency_eq_cycle {resolve : Resolver} {e : Image.DependencyEntry} {v v' : Vault}
    {n : String} (h : Run.readDependency resolve m e v = .error (.dependencyCycle n) v') :
    ∃ version, Version.read e.version = .ok version ∧
      (m.dependencies.any fun d => d.name = e.name && d.version = version) = false ∧
      resolve e.name version v = .error (.dependencyCycle n) v' := by
  rcases readDependency_eq_error h with hrejected | ⟨version, e', hversion, hlisted, hresolve, heq⟩
  · exact absurd rfl (hrejected.plain n)
  · rw [dependencyFailure_eq_cycle heq.symm] at hresolve
    exact ⟨version, hversion, hlisted, hresolve⟩

/-- A load that fails with a cycle was refused a dependency because of it. -/
theorem readModule_eq_cycle {resolve : Resolver} {image : ModuleImage} {v v' : Vault} {n : String}
    (h : Run.readModule resolve m image v = .error (.dependencyCycle n) v') :
    ∃ e version m' w, Run.Requests resolve m image v e version m' w ∧
      resolve e.name version w = .error (.dependencyCycle n) v' := by
  rcases bind_error_cases h with h | ⟨m₁, v₁, hnames, h⟩
  · exact absurd rfl (FailsOnly.foldlM readTypeName_plain _ _ _ _ _ h n)
  rcases bind_error_cases h with h | ⟨m₂, v₂, _, h⟩
  · obtain ⟨before, e, after, m', w, hes, hearlier, hfailed⟩ := foldlM_eq_error h
    obtain ⟨version, hversion, hunlisted, hresolve⟩ := readDependency_eq_cycle hfailed
    exact ⟨e, version, m', w,
      ⟨m₁, v₁, hnames, ⟨before, after, hes, hearlier⟩, hversion, hunlisted⟩, hresolve⟩
  · rcases bind_error_cases h with h | ⟨_, _, _, h⟩
    · exact absurd rfl (readClasses_plain _ _ _ _ _ h n)
    · exact absurd rfl (finishModule_plain _ _ _ _ _ h n)

/-- A load fails with a cycle if its own name is being loaded or a request is answered with it. -/
theorem loadImage_eq_cycle {resolve : Resolver} {bytes : Wire.Bytes} {v v' : Vault} {n : String}
    (h : Run.loadImage resolve bytes v = .error (.dependencyCycle n) v') :
    ∃ image, ModuleImage.decode bytes = .ok image ∧
      ((image.name? = some n ∧ n ∈ v.loading) ∨
        ∃ m w e version m' u u', v.Begins bytes image m w ∧
          Run.Requests resolve m image w e version m' u ∧
          resolve e.name version u = .error (.dependencyCycle n) u') := by
  have houtline := h ▸ Vault.loadImage_outline resolve bytes v
  generalize hresult : EStateM.Result.error (Failure.dependencyCycle n) v' = result at houtline
  cases houtline with
  | refused hrefuses =>
      cases hresult
      exact absurd rfl (hrefuses.plain n)
  | cyclic hdecode hname hloading =>
      cases hresult
      exact ⟨_, hdecode, Or.inl ⟨hname, hloading⟩⟩
  | completed => cases hresult
  | abandoned hb hread =>
      cases hresult
      obtain ⟨e, version, m', u, hrequest, hfailed⟩ := readModule_eq_cycle hread
      exact ⟨_, hb.decoded, Or.inr ⟨_, _, e, version, m', u, _, hb, hrequest, hfailed⟩⟩

end VaultKernel
