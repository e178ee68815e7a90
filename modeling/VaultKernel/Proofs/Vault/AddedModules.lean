import VaultKernel.Proofs.Vault.WholeLoads

/-!
# What loads leave behind

`Spreads own v new w` says that a vault has become another one through nothing but loads: there are
new modules behind the old ones, the classes of the new modules, and those of a module `own` that is
being loaded. Each dependency of a new module is a module in front of it. The lemmas carry this over
the steps of a load to its end, where the module joins the others or its classes go.
-/

namespace VaultKernel.Vault

open Arena Classes

/-- Each dependency of a module is a known module or one in front of it. -/
def Grounded (known : List Module) : List Module → Prop
  | [] => True
  | m :: rest => (∀ d ∈ m.dependencies, ∃ m' ∈ known, m'.id = d.module) ∧
      Grounded (known ++ [m]) rest

/-- Modules that were added later may depend on those that were added before them. -/
theorem Grounded.append {known new more : List Module} (hnew : Grounded known new)
    (hmore : Grounded (known ++ new) more) : Grounded known (new ++ more) := by
  induction new generalizing known with
  | nil => simpa using hmore
  | cons m rest ih =>
      refine ⟨hnew.1, ih hnew.2 ?_⟩
      simpa using hmore

/-- The dependencies of a module in a list are in front of it. -/
theorem Grounded.of_split {known before after : List Module} {m : Module}
    (h : Grounded known (before ++ m :: after)) {d : Dependency} (hd : d ∈ m.dependencies) :
    ∃ m' ∈ known ++ before, m'.id = d.module := by
  induction before generalizing known with
  | nil => simpa using h.1 d hd
  | cons first rest ih =>
      obtain ⟨m', hm', hid⟩ := ih h.2
      exact ⟨m', by simpa using hm', hid⟩

/-- The numbers of several modules. -/
def idsOf (ms : List Module) : List ModuleId := ms.map (·.id)

/-- A module whose number no other one has joins the others. -/
theorem nodup_idsOf_push {ms : Array Module} {m : Module} (hdistinct : (idsOf ms.toList).Nodup)
    (halone : ∀ m' ∈ ms.toList, m'.id ≠ m.id) : (idsOf (ms.push m).toList).Nodup := by
  rw [Array.toList_push, idsOf, List.map_append]
  refine List.nodup_append'.2 ⟨hdistinct, List.nodup_singleton _, ?_⟩
  intro id hmem hself
  obtain ⟨m', hm', rfl⟩ := List.mem_map.1 hmem
  exact halone m' hm' (List.mem_singleton.1 hself)

/-- Nothing but loads lies between two vaults; `own` is the number of a module under way. -/
structure Spreads (own : Nat → Prop) (v : Vault) (new : List Module) (w : Vault) : Prop where
  heap : w.heap = v.heap
  frames : w.frames = v.frames
  systemFrames : w.systemFrames = v.systemFrames
  modules : w.modules.toList = v.modules.toList ++ new
  kept : ∀ r e, v.classes.entry? r = some e → w.classes.entry? r = some e
  origin : ∀ r owner c, w.classes.entry? r = some (owner, c) →
    v.classes.entry? r = some (owner, c) ∨ own owner ∨ ∃ m ∈ new, m.id.toNat = owner
  grounded : Grounded v.modules.toList new
  distinct : (idsOf v.modules.toList).Nodup → (idsOf w.modules.toList).Nodup

variable {own : Nat → Prop} {v w w' : Vault} {new more : List Module} {m : Module}

/-- Classes, modules and numbers differ in nothing but the numbers. -/
theorem Spreads.start (own : Nat → Prop) (hheap : w.heap = v.heap) (hframes : w.frames = v.frames)
    (hsystem : w.systemFrames = v.systemFrames) (hmodules : w.modules = v.modules)
    (hclasses : w.classes = v.classes) : Spreads own v [] w := by
  refine ⟨hheap, hframes, hsystem, ?_, ?_, ?_, trivial, ?_⟩
  · rw [hmodules, List.append_nil]
  · intro r e he
    rw [hclasses, he]
  · intro r owner c he
    rw [hclasses] at he
    exact Or.inl he
  · rw [hmodules]
    exact id

/-- Other modules are loaded in between. -/
theorem Spreads.trans (h : Spreads own v new w) (h' : Spreads (fun _ => False) w more w') :
    Spreads own v (new ++ more) w' := by
  refine ⟨h'.heap.trans h.heap, h'.frames.trans h.frames, h'.systemFrames.trans h.systemFrames, ?_,
    fun r e he => h'.kept r e (h.kept r e he), ?_, ?_, h'.distinct ∘ h.distinct⟩
  · rw [h'.modules, h.modules, List.append_assoc]
  · intro r owner c he
    rcases h'.origin r owner c he with he | hfalse | ⟨m, hm, hid⟩
    · refine (h.origin r owner c he).imp_right (Or.imp_right ?_)
      rintro ⟨m, hm, hid⟩
      exact ⟨m, by simp [hm], hid⟩
    · exact hfalse.elim
    · exact Or.inr (Or.inr ⟨m, by simp [hm], hid⟩)
  · refine h.grounded.append ?_
    rw [← h.modules]
    exact h'.grounded

/-- A stage of the module under way. -/
theorem Spreads.private (h : Spreads (· = m.id.toNat) v new w)
    (hunowned : ∀ r owner c, v.classes.entry? r = some (owner, c) → owner ≠ m.id.toNat)
    (hprivate : Private m.id w w') : Spreads (· = m.id.toNat) v new w' := by
  have hmodules : w'.modules = w.modules := by rw [hprivate.rest]
  refine ⟨?_, ?_, ?_, ?_, ?_, ?_, h.grounded, ?_⟩
  · rw [hprivate.rest]
    exact h.heap
  · rw [hprivate.rest]
    exact h.frames
  · rw [hprivate.rest]
    exact h.systemFrames
  · rw [hmodules]
    exact h.modules
  · rintro r ⟨owner, c⟩ he
    exact (hprivate.entries r owner c (hunowned r owner c he)).2 (h.kept r _ he)
  · intro r owner c he
    by_cases howner : owner = m.id.toNat
    · exact Or.inr (Or.inl howner)
    · exact h.origin r owner c ((hprivate.entries r owner c howner).1 he)
  · rw [hmodules]
    exact h.distinct

/-- The module under way joins the others. -/
theorem Spreads.push (h : Spreads (· = m.id.toNat) v new w)
    (halone : ∀ m' ∈ w.modules.toList, m'.id ≠ m.id)
    (hdependencies : ∀ d ∈ m.dependencies, ∃ m' ∈ w.modules.toList, m'.id = d.module) :
    Spreads (fun _ => False) v (new ++ [m]) { w with modules := w.modules.push m } := by
  refine ⟨h.heap, h.frames, h.systemFrames, ?_, h.kept, ?_, ?_, ?_⟩
  · rw [Array.toList_push, h.modules, List.append_assoc]
  · intro r owner c he
    rcases h.origin r owner c he with he | howner | ⟨m', hm', hid⟩
    · exact Or.inl he
    · exact Or.inr (Or.inr ⟨m, by simp, howner.symm⟩)
    · exact Or.inr (Or.inr ⟨m', by simp [hm'], hid⟩)
  · refine h.grounded.append ⟨?_, trivial⟩
    rw [← h.modules]
    exact hdependencies
  · exact fun hdistinct => nodup_idsOf_push (h.distinct hdistinct) halone

theorem Spreads.withLoading (h : Spreads own v new w) (loading : List String) :
    Spreads own v new { w with loading } :=
  ⟨h.heap, h.frames, h.systemFrames, h.modules, h.kept, h.origin, h.grounded, h.distinct⟩

/-- The module under way goes with its classes, of which there are no objects. -/
theorem Spreads.release (h : Spreads (· = m.id.toNat) v new w)
    (hunowned : ∀ r owner c, v.classes.entry? r = some (owner, c) → owner ≠ m.id.toNat)
    (ho : v.Orderly) (hs : w.classes.Sound) :
    Spreads (fun _ => False) v new (w.release m.id) := by
  obtain ⟨hd, _⟩ := removeOwner_spec hs m.id.toNat
  refine ⟨?_, h.frames, h.systemFrames, h.modules, ?_, ?_, h.grounded, h.distinct⟩
  · rw [heap_release hs, h.heap]
    intro r e he himmortal howner
    rw [h.heap] at he
    -- the class of an object is older than the module
    obtain ⟨⟨owner, c⟩, hclass⟩ := contains_iff.1 (ho.typed r e he himmortal).contains
    have hne := hunowned _ owner c hclass
    rw [ownerOf?, h.kept _ _ hclass] at howner
    exact hne (Option.some.inj howner)
  · rintro r ⟨owner, c⟩ he
    exact hd.entry?_kept (hunowned r owner c he) (h.kept r _ he)
  · intro r owner c he
    obtain ⟨hne, he⟩ := hd.entry?_of_kept he
    exact (h.origin r owner c he).imp_right (Or.imp_left fun howner => hne howner)

end VaultKernel.Vault
