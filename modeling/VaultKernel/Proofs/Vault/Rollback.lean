import VaultKernel.Proofs.Vault.Nesting

/-!
# What a failed load leaves behind

A load can fail at any stage, and after other loads that it made have succeeded. `RolledBack` says
what is left of it: nothing but the modules of those other loads and their classes. The main
statement is `failed_load_rolls_back`; it holds in every reachable vault.
-/

namespace VaultKernel.Vault

open Arena Relation

/-- The vault `v'` is `v` with the modules `new`, which loads made by a failed one completed. -/
structure RolledBack (s : Searcher) (bytes : Wire.Bytes) (v : Vault) (new : List Module)
    (v' : Vault) : Prop where
  heap : v'.heap = v.heap
  frames : v'.frames = v.frames
  systemFrames : v'.systemFrames = v.systemFrames
  loading : v'.loading = v.loading
  modules : v'.modules.toList = v.modules.toList ++ new
  nested : ∀ m ∈ new, ∃ c, TransGen (LoadCall.Nests s) ⟨s.depth, bytes, v⟩ c ∧ c.Completes s m
  /-- The old classes are there under their owners. -/
  kept : ∀ r e, v.classes.entry? r = some e → v'.classes.entry? r = some e
  live_iff : ∀ r, v'.classes.contains r ↔ v.classes.contains r ∨ ∃ m ∈ new, r ∈ m.ownClasses
  owned_iff : ∀ m ∈ new, ∀ r, r ∈ m.ownClasses ↔ v'.classes.ownerOf? r = some m.id.toNat
  /-- The number that the failed module got owns nothing. -/
  ungranted : ∀ id tokens, v.tokens.nextModule? = some (id, tokens) →
    ∀ r, v'.classes.ownerOf? r ≠ some id.toNat

variable {v v' : Vault}

/-- The classes that live are those that did before and those of the modules added. -/
theorem Spreads.live_iff {new : List Module} (h : Spreads (fun _ => False) v new v')
    (howned : ∀ m ∈ new, ∀ r, r ∈ m.ownClasses ↔ v'.classes.ownerOf? r = some m.id.toNat)
    (r : ClassRef) :
    v'.classes.contains r ↔ v.classes.contains r ∨ ∃ m ∈ new, r ∈ m.ownClasses := by
  rw [contains_iff, contains_iff]
  constructor
  · rintro ⟨⟨owner, c⟩, he⟩
    rcases h.origin r owner c he with hold | hfalse | ⟨m, hm, rfl⟩
    · exact Or.inl ⟨_, hold⟩
    · exact hfalse.elim
    · exact Or.inr ⟨m, hm, (howned m hm r).2 (ownerOf?_eq_some_iff.2 ⟨c, he⟩)⟩
  · rintro (⟨e, he⟩ | ⟨m, hm, hr⟩)
    · exact ⟨e, h.kept r e he⟩
    · obtain ⟨c, he⟩ := ownerOf?_eq_some_iff.1 ((howned m hm r).1 hr)
      exact ⟨_, he⟩

/-- A load that fails in a reachable vault leaves nothing behind but the modules that loads made by
it completed, with their classes. -/
theorem failed_load_rolls_back (hv : v.Reachable) (s : Searcher) {bytes : Wire.Bytes} {e : Failure}
    (hload : s.load bytes v = .error e v') : ∃ new, RolledBack s bytes v new v' := by
  have hsafe : v.Safe v' := by
    have hafter := (reaches_load s bytes v).safe hv.sound
    rwa [hload] at hafter
  have hgrows := LoadCall.grows s ⟨s.depth, bytes, v⟩ hv.sound hv.orderly
  rw [LoadCall.Grows, show LoadCall.run s ⟨s.depth, bytes, v⟩ = _ from hload] at hgrows
  obtain ⟨⟨new, hspreads, hexplains⟩, hungranted⟩ := hgrows
  have howned : ∀ m ∈ new, ∀ r, r ∈ m.ownClasses ↔ v'.classes.ownerOf? r = some m.id.toNat := by
    intro m hm
    refine hsafe.sound.owned_iff m ?_
    rw [hspreads.modules]
    exact List.mem_append_right _ hm
  exact ⟨new, hspreads.heap, hspreads.frames, hspreads.systemFrames, hsafe.loading,
    hspreads.modules, hexplains, hspreads.kept, hspreads.live_iff howned, howned, hungranted⟩

/-- A dependency is loaded and a class gets its stub before an unknown parent is met. -/
theorem failed_load_rolls_back_dependency : ∃ (library app : ModuleImage)
    (libraryBytes appBytes : Wire.Bytes) (v v' : Vault) (e : Failure) (new : List Module),
    library.encode = .ok libraryBytes ∧ app.encode = .ok appBytes ∧ v.Reachable ∧
      Searcher.load { images := [("library", libraryBytes)] } appBytes v = .error e v' ∧
      RolledBack { images := [("library", libraryBytes)] } appBytes v new v' ∧ new.length = 1 := by
  obtain ⟨library, app, hrun⟩ : ∃ library app : ModuleImage,
      (create {} {}).toOption.any fun v =>
        library.encode.toOption.any fun libraryBytes => app.encode.toOption.any fun appBytes =>
          Ends (Searcher.load { images := [("library", libraryBytes)] } appBytes v)
            (fun _ _ => False) fun v' => v.modules.size = 0 ∧ v'.modules.size = 1 :=
    ⟨{ nameIndex := 0
       versionIndex := 1
       strings := [⟨0, "library"⟩, ⟨1, "1.0"⟩]
       typeNames := [⟨0, "library", "", "A"⟩]
       fieldNames := []
       dependencies := []
       classes := [⟨0, 2, [], [], []⟩]
       aliases := []
       generics := []
       constants := [] },
     { nameIndex := 0
       versionIndex := 1
       strings := [⟨0, "app"⟩, ⟨1, "1.0"⟩]
       typeNames := [⟨0, "app", "", "B"⟩, ⟨1, "library", "", "Missing"⟩]
       fieldNames := []
       dependencies := [⟨"library", "1.0"⟩]
       classes := [⟨0, 2, [1], [], []⟩]
       aliases := []
       generics := []
       constants := [] }, by decide +kernel⟩
  obtain ⟨v, hcreated, hrun⟩ := (Option.any_eq_true _ _).1 hrun
  obtain ⟨libraryBytes, hlibrary, hrun⟩ := (Option.any_eq_true _ _).1 hrun
  obtain ⟨appBytes, happ, hrun⟩ := (Option.any_eq_true _ _).1 hrun
  have hends := of_decide_eq_true hrun
  cases hload : Searcher.load { images := [("library", libraryBytes)] } appBytes v with
  | ok id v' =>
      rw [hload] at hends
      exact hends.elim
  | error e v' =>
      rw [hload] at hends
      obtain ⟨hnone, hone⟩ := hends
      have hv : v.Reachable := ⟨{}, {}, v, toOption_eq_some.1 hcreated, .refl v⟩
      obtain ⟨new, hnew⟩ := failed_load_rolls_back hv _ hload
      refine ⟨library, app, libraryBytes, appBytes, v, v', e, new, toOption_eq_some.1 hlibrary,
        toOption_eq_some.1 happ, hv, hload, hnew, ?_⟩
      have hcount := congrArg List.length hnew.modules
      simp only [Array.length_toList, List.length_append] at hcount
      omega

end VaultKernel.Vault
