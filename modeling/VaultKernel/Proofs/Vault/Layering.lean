import VaultKernel.Proofs.Vault.Cycles
import VaultKernel.Proofs.Vault.Lifetime

/-!
# The order of modules

A module is loaded after the modules that it depends on, so the order of loading sorts the modules
of a vault by their dependencies, and disposing them in the opposite order never takes a module away
from one that is still there. `Arranged` is what holds of them throughout the lifetime of a vault.
The main statement is `lifetime_layered`, which also says that a load which fails with a cycle has
found one.
-/

namespace VaultKernel

open Relation

/-- A module depends on another one. -/
def Module.Needs (m m' : Module) : Prop := ∃ d ∈ m.dependencies, d.module = m'.id

namespace Vault

variable {v v' : Vault} {m m' : Module} {known new : List Module} {past : List (Vault × Call)}

/-- The dependencies among loaded modules. -/
structure Depends (v : Vault) (m m' : Module) : Prop where
  source : m ∈ v.modules.toList
  target : m' ∈ v.modules.toList
  needs : m.Needs m'

/-- A module was removed while another one was loaded. -/
def Removed (past : List (Vault × Call)) (m : Module) (id : ModuleId) : Prop :=
  ∃ u call, (u, call) ∈ past ∧ call.Disposes u id ∧ m ∈ u.modules.toList

/-- From now on no load gives a module this number, whether the load is nested or not. -/
def Retired (v : Vault) (id : ModuleId) : Prop :=
  ∀ (s : Searcher) (c c' : LoadCall), v.Reaches c.vault → ReflTransGen (LoadCall.Nests s) c c' →
    ∀ granted tokens, c'.vault.tokens.nextModule? = some (granted, tokens) → granted ≠ id

/-- Numbers that were granted once are retired. -/
theorem retired_of_le (hs : v.Sound) {id : ModuleId}
    (hle : id.toNat ≤ v.tokens.lastModule.toNat) : v.Retired id := by
  intro s c c' hreaches hnests granted tokens hgrant
  have hsafe := hreaches.safe hs
  have htokens := hsafe.keeps.tokens
  have hnested := (LoadCall.keeps_of_nests hnests hsafe.sound).2.tokens
  have hgranted := (Classes.nextModule?_eq_some hgrant).1
  rintro rfl
  omega

/-! ## Disposal -/

/-- The modules in the order in which they are disposed with their vault. -/
def disposalOrder (v : Vault) : List Module := v.modules.toList.reverse

/-- The vault after several modules went one after another. -/
def released (v : Vault) (ms : List Module) : Vault :=
  ms.foldl (fun w m => w.release m.id) { v with modules := #[] }

/-- The vault without collected objects and frames. -/
def swept (v : Vault) : Vault :=
  { v with
    heap := v.heap.freeMortals.2
    frames := (v.frames.removeOwner Frame.owner).2
    systemFrames := [] }

/-- Clearing a vault removes its modules in the order of disposal, and then what is left. -/
theorem cleared_eq (v : Vault) : v.cleared = (v.released v.disposalOrder).swept := by
  rw [released, disposalOrder, List.foldl_reverse, Array.foldr_toList]
  rfl

/-! ## The invariant -/

/-- The order of the modules during the lifetime of a vault. -/
structure Arranged (past : List (Vault × Call)) (v : Vault) : Prop where
  distinct : (idsOf v.modules.toList).Nodup
  bounded : ∀ m ∈ v.modules.toList, ∀ d ∈ m.dependencies,
    d.module.toNat ≤ v.tokens.lastModule.toNat
  foreign : ∀ m ∈ v.modules.toList, ¬ m.Needs m
  ordered : v.modules.toList.Pairwise fun m m' => ¬ m.Needs m'
  supplied : ∀ m ∈ v.modules.toList, ∀ d ∈ m.dependencies,
    d.module ∈ idsOf v.modules.toList ∨ Removed past m d.module

/-- A module that was removed once was removed. -/
theorem Removed.call {id : ModuleId} (h : Removed past m id) (step : Vault × Call) :
    Removed (step :: past) m id := by
  obtain ⟨u, call, hmem, hrest⟩ := h
  exact ⟨u, call, List.mem_cons_of_mem _ hmem, hrest⟩

/-- Modules go, and those that depend on them stay. -/
theorem Arranged.remove {call : Call} (h : v.Arranged past)
    (hsub : v'.modules.toList.Sublist v.modules.toList)
    (hgone : ∀ m ∈ v.modules.toList, m ∈ v'.modules.toList ∨ call.Disposes v m.id)
    (htokens : v.tokens.lastModule.toNat ≤ v'.tokens.lastModule.toNat) :
    v'.Arranged ((v, call) :: past) := by
  refine ⟨h.distinct.sublist (hsub.map _), fun m hm d hd => ?_, fun m hm => ?_,
    h.ordered.sublist hsub, fun m hm d hd => ?_⟩
  · exact Nat.le_trans (h.bounded m (hsub.subset hm) d hd) htokens
  · exact h.foreign m (hsub.subset hm)
  · rcases h.supplied m (hsub.subset hm) d hd with hloaded | hremoved
    · obtain ⟨m', hm', hid⟩ := List.mem_map.1 hloaded
      rcases hgone m' hm' with hstays | hdisposes
      · exact Or.inl (List.mem_map.2 ⟨m', hstays, hid⟩)
      · rw [hid] at hdisposes
        exact Or.inr ⟨v, call, List.mem_cons_self, hdisposes, hsub.subset hm⟩
    · exact Or.inr (hremoved.call _)

/-- The dependencies of new modules are among the old ones and those before them. -/
theorem Grounded.supplied (h : Grounded known new) (hm : m ∈ new) {d : Dependency}
    (hd : d ∈ m.dependencies) : ∃ m' ∈ known ++ new, m'.id = d.module := by
  obtain ⟨before, after, rfl⟩ := List.append_of_mem hm
  obtain ⟨m', hm', hid⟩ := h.of_split hd
  refine ⟨m', ?_, hid⟩
  rw [← List.append_assoc]
  exact List.mem_append_left _ hm'

/-- A module that depends on those in front of it does not depend on itself or on those behind. -/
theorem Grounded.ordered (h : Grounded known new) (hdistinct : (idsOf (known ++ new)).Nodup) :
    (∀ m ∈ new, ¬ m.Needs m) ∧ new.Pairwise fun m m' => ¬ m.Needs m' := by
  induction new generalizing known with
  | nil => simp
  | cons m rest ih =>
      have hfirst : ∀ m' ∈ m :: rest, ¬ m.Needs m' := by
        rintro m' hm' ⟨d, hd, hid⟩
        obtain ⟨m'', hm'', hid'⟩ := h.1 d hd
        rw [idsOf, List.map_append] at hdistinct
        exact (List.nodup_append'.1 hdistinct).2.2 (List.mem_map_of_mem hm'')
          (List.mem_map.2 ⟨m', hm', (hid'.trans hid).symm⟩)
      obtain ⟨hforeign, hordered⟩ := ih h.2 (by simpa using hdistinct)
      refine ⟨fun m' hm' => ?_, List.pairwise_cons.2 ⟨fun m' hm' => ?_, hordered⟩⟩
      · rcases List.mem_cons.1 hm' with rfl | hm'
        · exact hfirst m' (by simp)
        · exact hforeign m' hm'
      · exact hfirst m' (by simp [hm'])

/-- Modules come, each after those that it depends on. -/
theorem Arranged.add (h : v.Arranged past) (hsafe : v.Safe v')
    (hmodules : v'.modules.toList = v.modules.toList ++ new)
    (hgrounded : Grounded v.modules.toList new)
    (hdistinct : (idsOf v'.modules.toList).Nodup) (step : Vault × Call) :
    v'.Arranged (step :: past) := by
  have hdistinct' := hdistinct
  rw [hmodules] at hdistinct'
  obtain ⟨hforeign, hordered⟩ := hgrounded.ordered hdistinct'
  have hcases : ∀ {m}, m ∈ v'.modules.toList → m ∈ v.modules.toList ∨ m ∈ new := by
    intro m hm
    rw [hmodules] at hm
    exact List.mem_append.1 hm
  -- a new module has a later number than all that the old ones depend on
  have hlater : ∀ m ∈ new, v.tokens.lastModule.toNat < m.id.toNat := by
    intro m hm
    refine (hsafe.keeps.modules m (by simp [hmodules, hm])).resolve_left fun hold => ?_
    rw [idsOf, List.map_append] at hdistinct'
    exact (List.nodup_append'.1 hdistinct').2.2 (List.mem_map_of_mem hold) (List.mem_map_of_mem hm)
  have hsupplied : ∀ m ∈ new, ∀ d ∈ m.dependencies, ∃ m' ∈ v'.modules.toList, m'.id = d.module := by
    intro m hm d hd
    rw [hmodules]
    exact hgrounded.supplied hm hd
  refine ⟨hdistinct, fun m hm d hd => ?_, fun m hm => ?_, ?_, fun m hm d hd => ?_⟩
  · rcases hcases hm with hm | hm
    · exact Nat.le_trans (h.bounded m hm d hd) hsafe.keeps.tokens
    · obtain ⟨m', hm', hid⟩ := hsupplied m hm d hd
      rw [← hid]
      exact (hsafe.sound.numbers m' hm').2
  · rcases hcases hm with hm | hm
    · exact h.foreign m hm
    · exact hforeign m hm
  · rw [hmodules]
    refine List.pairwise_append.2 ⟨h.ordered, hordered, ?_⟩
    rintro m hm m' hm' ⟨d, hd, hid⟩
    have hbounded := h.bounded m hm d hd
    have hafter := hlater m' hm'
    rw [hid] at hbounded
    omega
  · rcases hcases hm with hm | hm
    · refine (h.supplied m hm d hd).imp (fun hloaded => ?_) fun hremoved => hremoved.call _
      rw [hmodules, idsOf, List.map_append]
      exact List.mem_append_left _ hloaded
    · obtain ⟨m', hm', hid⟩ := hsupplied m hm d hd
      exact Or.inl (List.mem_map.2 ⟨m', hm', hid⟩)

/-- A call keeps the order of the modules. -/
theorem Arranged.call (h : v.Arranged past) (hs : v.Sound) (ho : v.Orderly) (call : Call) :
    (call.after v).Arranged ((v, call) :: past) := by
  have hsafe := (call.reaches v).safe hs
  cases call.rearranges hs ho with
  | adds new hmodules hgrounded hdistinct =>
      exact h.add hsafe hmodules hgrounded (hdistinct h.distinct) _
  | removes hsub hgone => exact h.remove hsub hgone hsafe.keeps.tokens

/-- The modules are in order throughout the lifetime of a vault. -/
theorem arranged_of_lifetime (h : Lifetime past v) : v.Arranged past := by
  induction h with
  | created hcreated =>
      have hnone := (create_bare hcreated).1
      refine ⟨?_, ?_, ?_, ?_, ?_⟩ <;> simp [hnone, idsOf]
  | called call hlifetime ih =>
      exact ih.call hlifetime.reachable.sound hlifetime.reachable.orderly call

/-! ## Positions -/

/-- In a list where nothing needs itself or what is behind it, it only needs what is in front. -/
theorem index_lt_of_pairwise {R : Module → Module → Prop} {ms : List Module}
    (hself : ∀ m ∈ ms, ¬ R m m) (hordered : ms.Pairwise fun m m' => ¬ R m m') {i j : Nat}
    (hi : ms[i]? = some m) (hj : ms[j]? = some m') (hneeds : R m m') : j < i := by
  obtain ⟨hilt, rfl⟩ := List.getElem?_eq_some_iff.1 hi
  obtain ⟨hjlt, rfl⟩ := List.getElem?_eq_some_iff.1 hj
  rcases Nat.lt_trichotomy i j with hlt | rfl | hlt
  · exact absurd hneeds (List.pairwise_iff_getElem.1 hordered i j hilt hjlt hlt)
  · exact absurd hneeds (hself _ (List.getElem_mem hilt))
  · exact hlt

/-- A module comes after those that it needs. -/
theorem Arranged.index_lt (h : v.Arranged past) {i j : Nat} (hi : v.modules.toList[i]? = some m)
    (hj : v.modules.toList[j]? = some m') (hneeds : m.Needs m') : j < i :=
  index_lt_of_pairwise h.foreign h.ordered hi hj hneeds

/-- A module comes after those that it depends on, however indirectly. -/
theorem Arranged.index_lt_of_transGen (h : v.Arranged past) (hdepends : TransGen v.Depends m m')
    {i j : Nat} (hi : v.modules.toList[i]? = some m) (hj : v.modules.toList[j]? = some m') :
    j < i := by
  induction hdepends generalizing j with
  | single hstep => exact h.index_lt hi hj hstep.needs
  | tail _ hstep ih =>
      obtain ⟨k, hk⟩ := List.mem_iff_getElem?.1 hstep.source
      exact Nat.lt_trans (h.index_lt hk hj hstep.needs) (ih hk)

/-- The modules of a vault are sorted by their dependencies. -/
structure Layered (past : List (Vault × Call)) (v : Vault) : Prop where
  /-- A dependency is in front, or it was removed and its number is not used again. -/
  placed : ∀ (i : Nat) m, v.modules[i]? = some m → ∀ d ∈ m.dependencies,
    (∃ j m', j < i ∧ v.modules[j]? = some m' ∧ m'.id = d.module) ∨
      (d.module ∉ idsOf v.modules.toList ∧ Removed past m d.module ∧ v.Retired d.module)
  acyclic : ∀ m, ¬ TransGen v.Depends m m
  disposal : v.cleared = (v.released v.disposalOrder).swept
  /-- What depends on a module is disposed before it. -/
  dependentsFirst : ∀ (i j : Nat) m m', v.disposalOrder[i]? = some m →
    v.disposalOrder[j]? = some m' → m.Needs m' → i < j

/-- Modules in this order are sorted by their dependencies. -/
theorem Arranged.layered (h : v.Arranged past) (hs : v.Sound) : v.Layered past := by
  refine ⟨fun i m hi d hd => ?_, fun m hcycle => ?_, cleared_eq v, fun i j m m' hi hj hneeds => ?_⟩
  · rw [← Array.getElem?_toList] at hi
    have hm : m ∈ v.modules.toList := List.mem_of_getElem? hi
    by_cases hloaded : d.module ∈ idsOf v.modules.toList
    · obtain ⟨m', hm', hid⟩ := List.mem_map.1 hloaded
      obtain ⟨j, hj⟩ := List.mem_iff_getElem?.1 hm'
      refine Or.inl ⟨j, m', h.index_lt hi hj ⟨d, hd, hid.symm⟩, ?_, hid⟩
      rw [← Array.getElem?_toList]
      exact hj
    · exact Or.inr ⟨hloaded, (h.supplied m hm d hd).resolve_left hloaded,
        retired_of_le hs (h.bounded m hm d hd)⟩
  · have hm : m ∈ v.modules.toList := by
      obtain ⟨_, hstep, _⟩ := TransGen.head'_iff.1 hcycle
      exact hstep.source
    obtain ⟨i, hi⟩ := List.mem_iff_getElem?.1 hm
    exact Nat.lt_irrefl i (h.index_lt_of_transGen hcycle hi hi)
  · refine index_lt_of_pairwise (R := fun m m' => m'.Needs m) ?_ ?_ hj hi hneeds
    · exact fun m hm => h.foreign m (List.mem_reverse.1 hm)
    · exact List.pairwise_reverse.2 h.ordered

/-- At any time the modules of a vault are sorted by their dependencies, and a load that fails with
a cycle has an image from which requests lead back to its name. -/
theorem lifetime_layered (h : Lifetime past v) :
    v.Layered past ∧ ∀ (s : Searcher) (bytes : Wire.Bytes) (n : String) (v' : Vault),
      s.load bytes v = .error (.dependencyCycle n) v' →
        ∃ root, ModuleImage.decode bytes = .ok root ∧ s.Cyclic root n := by
  have hv := h.reachable
  refine ⟨(arranged_of_lifetime h).layered hv.sound, fun s bytes n v' hload => ?_⟩
  exact s.cyclic_of_load hv.sound hv.idle hload

/-- The image of a module without classes. -/
def hollowImage (name : String) (dependencies : List Image.DependencyEntry) : ModuleImage :=
  { nameIndex := 0
    versionIndex := 1
    strings := [⟨0, name⟩, ⟨1, "1.0"⟩]
    typeNames := []
    fieldNames := []
    dependencies
    classes := []
    aliases := []
    generics := []
    constants := [] }

/-- The image of a module with a single method, which has the given name and zones. They may catch
exceptions (2) and null pointers (3). -/
def programImage (method : String) (zones : List Image.Zone) : Except Wire.Error ModuleImage := do
  let code : Image.Code := { instructions := [], labels := [], labelMap := [], zones }
  let body ← code.encode
  let entry : Image.Method :=
    { name := 2, flags := 3, stackSize := 4, locals := 0, returnType := .type 1, arguments := [],
      body }
  let block ← entry.encode
  return { hollowImage "app" [] with
    strings := [⟨0, "app"⟩, ⟨1, "1.0"⟩, ⟨2, method⟩]
    typeNames := [⟨0, "app", "app", "Program"⟩, ⟨1, "std", "std", "Void"⟩,
      ⟨2, "std", "std", "Exception"⟩, ⟨3, "std", "std", "NullPointerException"⟩]
    classes := [{ name := 0, flags := 2, parents := [], methods := [block], fields := [] }] }

/-- The name for which a load found a cycle. -/
def cycleName? : EStateM.Result Failure Vault ModuleId → Option String
  | .ok _ _ => none
  | .error (.dependencyCycle n) _ => some n
  | .error (.fatal _) _ | .error (.unresolved _) _ | .error (.dependencyNotFound _ _ _ _) _
  | .error (.unresolvedClass _) _ | .error (.fault _) _ | .error (.heap _) _
  | .error (.file _) _ | .error .overflow _ => none

/-- A load that has a name for a cycle failed with it. -/
theorem eq_of_cycleName? {result : EStateM.Result Failure Vault ModuleId} {n : String}
    (h : cycleName? result = some n) : ∃ v', result = .error (.dependencyCycle n) v' := by
  unfold cycleName? at h
  split at h <;> cases h
  exact ⟨_, rfl⟩

/-- A module outlives the library that it depends on, and two others depend on each other. -/
theorem lifetime_layered_orphan : ∃ (past : List (Vault × Call)) (v v' : Vault) (m : Module)
    (s : Searcher) (bytes : Wire.Bytes), Lifetime past v ∧ v.modules = #[m] ∧
      (∃ d ∈ m.dependencies, Removed past m d.module ∧ v.Retired d.module) ∧
      s.load bytes v = .error (.dependencyCycle "egg") v' ∧
      ∃ root, ModuleImage.decode bytes = .ok root ∧ s.Cyclic root "egg" := by
  have hrun : (create {} {}).toOption.any fun v₀ =>
      (hollowImage "library" []).encode.toOption.any fun library =>
      (hollowImage "app" [⟨"library", "1.0"⟩]).encode.toOption.any fun app =>
      (hollowImage "hen" [⟨"egg", "1.0"⟩]).encode.toOption.any fun hen =>
      (hollowImage "egg" [⟨"hen", "1.0"⟩]).encode.toOption.any fun egg =>
        let s : Searcher := { images := [("library", library), ("hen", hen)] }
        let v₁ := (Call.load s app).after v₀
        let v₂ := (Call.operate (.disposeModule 3)).after v₁
        v₂.modules.size = 1 && v₂.modules.all (fun m => !m.dependencies.isEmpty) &&
          cycleName? (s.load egg v₂) = some "egg" := by
    decide +kernel
  obtain ⟨v₀, hcreated, hrun⟩ := (Option.any_eq_true _ _).1 hrun
  obtain ⟨library, _, hrun⟩ := (Option.any_eq_true _ _).1 hrun
  obtain ⟨app, _, hrun⟩ := (Option.any_eq_true _ _).1 hrun
  obtain ⟨hen, _, hrun⟩ := (Option.any_eq_true _ _).1 hrun
  obtain ⟨egg, _, hrun⟩ := (Option.any_eq_true _ _).1 hrun
  have hlifetime := ((Lifetime.created (toOption_eq_some.1 hcreated)).called (.load
    { images := [("library", library), ("hen", hen)] } app)).called (.operate (.disposeModule 3))
  simp only [Bool.and_eq_true, decide_eq_true_eq] at hrun
  obtain ⟨⟨hsize, hneeds⟩, hcycle⟩ := hrun
  obtain ⟨m, hm⟩ := Array.size_eq_one_iff.1 hsize
  obtain ⟨v', hload⟩ := eq_of_cycleName? hcycle
  obtain ⟨hlayered, hcyclic⟩ := lifetime_layered hlifetime
  refine ⟨_, _, v', m, _, egg, hlifetime, hm, ?_, hload, hcyclic _ _ _ _ hload⟩
  rw [hm] at hneeds
  obtain ⟨d, hd⟩ := List.exists_mem_of_ne_nil m.dependencies (by simpa using hneeds)
  rcases hlayered.placed 0 m (by rw [hm]; rfl) d hd with ⟨j, _, hj, _⟩ | ⟨_, hremoved, hretired⟩
  · exact absurd hj (Nat.not_lt_zero j)
  · exact ⟨d, hd, hremoved, hretired⟩

end Vault

end VaultKernel
