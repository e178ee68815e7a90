import VaultKernel.Proofs.Vault.Layering
import VaultKernel.Proofs.Vault.LoadsUnderway

/-!
# What requests are answered with

A searcher answers a request with a loaded module of the right name and version, or it loads the
image that it has under the name and checks the version, but not the name in the header. So the
answer always has the version that was asked for, and it has the name exactly if the same request is
answered with it again (`resolve_answers`); an image under a name that is not its own is loaded anew
for each request (`resolve_misnamed`).
-/

namespace VaultKernel

open Vault

/-! ## Numbers -/

namespace Vault

variable {v v' w : Vault} {m : Module}

/-- No two loaded modules have the same number. -/
def Distinct (v : Vault) : Prop := (idsOf v.modules.toList).Nodup

/-- Whether modules have different numbers depends on the modules alone. -/
theorem Distinct.congr (h : v.Distinct) (hmodules : v'.modules = v.modules) : v'.Distinct := by
  rw [Distinct, hmodules]
  exact h

/-- The look-up by number finds every module. -/
theorem Distinct.module? (h : v.Distinct) (hm : m ∈ v.modules.toList) :
    v.module? m.id = some m := by
  cases hfound : v.modules.find? fun m' => decide (m'.id = m.id) with
  | none =>
      rw [Array.find?_eq_none] at hfound
      exact absurd (decide_eq_true rfl) (hfound m (Array.mem_toList_iff.1 hm))
  | some m' =>
      have hid : m'.id = m.id := by simpa using Array.find?_some hfound
      have hm' := Array.mem_toList_iff.2 (Array.mem_of_find?_eq_some hfound)
      rw [List.inj_on_of_nodup_map h hm' hm hid] at hfound
      exact hfound

/-- A load adds a module with a new number to those that its resolver leaves. -/
theorem distinct_loadImage {resolve : Resolver} (hsafe : resolve.Safe)
    (hresolve : ∀ name version u, u.Sound → u.Distinct →
      (stateAfter (resolve name version u)).Distinct)
    (hs : v.Sound) (hv : v.Distinct) (bytes : Wire.Bytes) :
    (stateAfter (Run.loadImage resolve bytes v)).Distinct := by
  have houtline := loadImage_outline resolve bytes v
  generalize Run.loadImage resolve bytes v = result at houtline
  have hprivate : ∀ (id : ModuleId) (u u' : Vault), u.Distinct → Private id u u' → u'.Distinct :=
    fun id u u' hu h => hu.congr (by rw [h.rest])
  have hstages : ∀ {image m w}, v.Begins bytes image m w →
      Ends (Run.readModule resolve m image w)
        (fun m' v' => Finished Distinct m' v' ∧ m'.id = m.id ∧ m'.name = m.name)
        (Stopped (fun u => ∃ _ : List Dependency, u.Distinct) m.id) := by
    intro image m w hb
    have hstart : w.Distinct := hv.congr (by rw [hb.begun])
    refine readModule_spec (R := fun _ => Distinct) (fun _ => hprivate m.id)
      (hb.stubbed hs hstart (hprivate m.id)) image fun e version m' u _ hsound hu => ?_
    have hdistinct := ends_iff.2 (hresolve e.name version u hsound hu)
    exact ((hsafe e.name version u hsound).and hdistinct).mono
      (fun _ _ h => ⟨h.1.sound, h.1.keeps, h.2⟩) fun _ h => ⟨h.1.sound, h.1.keeps, h.2⟩
  cases houtline with
  | refused => exact hv.congr rfl
  | cyclic => exact hv.congr rfl
  | completed hb hread =>
      have hdone := hstages hb
      rw [hread] at hdone
      exact nodup_idsOf_push hdone.1.around hdone.1.alone
  | abandoned hb hread =>
      have hdone := hstages hb
      rw [hread] at hdone
      obtain ⟨_, hdistinct⟩ := hdone.around
      exact hdistinct.congr rfl

/-- An operation leaves the modules with different numbers. -/
theorem Distinct.operate (hv : v.Distinct) (hs : v.Sound) (operation : Operation) :
    (operation.after v).Distinct := by
  cases Call.Rearranges.operate hs operation with
  | adds new _ _ hdistinct => exact hdistinct hv
  | removes hsub _ => exact hv.sublist (hsub.map _)

/-- Whatever a vault becomes, its modules have different numbers. -/
theorem Reaches.distinct (h : v.Reaches w) (hs : v.Sound) (hv : v.Distinct) : w.Distinct := by
  induction h with
  | refl => exact hv
  | operate operation hreaches ih => exact (ih hs hv).operate (hreaches.safe hs).sound operation
  | load bytes hresolve hreaches ihresolve ih =>
      have hsafe : Resolver.Safe _ := fun name version u hu =>
        ends_iff.2 ((hresolve name version u).safe hu)
      exact distinct_loadImage hsafe ihresolve (hreaches.safe hs).sound (ih hs hv) bytes

/-- What a reachable vault becomes is reachable. -/
theorem Reachable.reaches (hv : v.Reachable) (h : v.Reaches w) : w.Reachable := by
  obtain ⟨config, registry, v₀, hcreated, hreaches⟩ := hv
  exact ⟨config, registry, v₀, hcreated, hreaches.trans h⟩

/-- The modules of a reachable vault have different numbers. -/
theorem Reachable.distinct (hv : v.Reachable) : v.Distinct := by
  obtain ⟨config, registry, v₀, hcreated, hreaches⟩ := hv
  have hbare : v₀.Distinct := by simp [Distinct, idsOf, (create_bare hcreated).1]
  exact hreaches.distinct (sound_create hcreated) hbare

end Vault

/-! ## Requests -/

namespace Searcher

variable {s : Searcher} {name : String} {version : Version} {v v' : Vault} {id : ModuleId}

/-- The check of a version passes if the module has it, and changes nothing. -/
theorem checkVersion_eq_ok {id' : ModuleId} (h : checkVersion name version id v = .ok id' v') :
    id' = id ∧ v' = v ∧ ∃ m, v.module? id = some m ∧ m.version = version := by
  obtain ⟨u, _, hget, h⟩ := bind_ok_cases h
  cases hget
  cases hm : v.module? id with
  | none =>
      rw [hm] at h
      cases h
  | some m =>
      rw [hm] at h
      dsimp only at h
      split at h
      · next hversion =>
          cases h
          exact ⟨rfl, rfl, m, rfl, hversion⟩
      · cases h

/-- A request that succeeds has found a module or loaded one of the right version. -/
theorem resolve_eq_ok (h : s.resolve name version v = .ok id v') :
    (v.findModule? name version = some id ∧ v' = v) ∨
      ∃ depth bytes m, s.Finds name version v bytes ∧
        Run.loadImage (s.resolveWithin depth) bytes v = .ok id v' ∧
        v'.module? id = some m ∧ m.version = version := by
  obtain ⟨u, _, hget, h⟩ := bind_ok_cases h
  cases hget
  cases hfound : v.findModule? name version with
  | some found =>
      rw [hfound] at h
      cases h
      exact Or.inl ⟨rfl, rfl⟩
  | none =>
      rw [hfound] at h
      cases hloading : v.isLoading name with
      | true =>
          simp only [hloading] at h
          cases h
      | false =>
          simp only [hloading] at h
          obtain ⟨bytes, w, hanswer, hrest⟩ := bind_ok_cases h
          obtain ⟨himage, rfl⟩ := answer_eq_ok hanswer
          obtain ⟨loaded, w', hload, hcheck⟩ := bind_ok_cases hrest
          obtain ⟨rfl, rfl, m, hm, hversion⟩ := checkVersion_eq_ok hcheck
          have hfinds : s.Finds name version w bytes :=
            ⟨hfound, by simpa [isLoading] using hloading, himage⟩
          exact Or.inr ⟨_, bytes, m, hfinds, hload, hm, hversion⟩

/-- A request for a loaded module changes nothing. -/
theorem resolve_of_found (s : Searcher) (h : v.findModule? name version = some id) :
    s.resolve name version v = .ok id v := by
  have hget : (get : Run Vault) v = .ok v v := rfl
  refine bind_of_eq_ok hget ?_
  rw [h]
  rfl

/-- A load that succeeds adds a module under a new number and with the name in its header, and no
other module with this name. -/
theorem loadImage_adds (hs : v.Sound) {depth : Nat} {bytes : Wire.Bytes}
    (hload : Run.loadImage (s.resolveWithin depth) bytes v = .ok id v') :
    ∃ image m, ModuleImage.decode bytes = .ok image ∧ image.name? = some m.name ∧
      v'.module? id = some m ∧ v.tokens.lastModule.toNat < id.toNat ∧
      ∀ m' ∈ v'.modules.toList, m' = m ∨ m' ∈ v.modules.toList ∨ m'.name ≠ m.name := by
  have houtline := hload ▸ loadImage_outline (s.resolveWithin depth) bytes v
  generalize hresult : EStateM.Result.ok id v' = result at houtline
  cases houtline with
  | refused => cases hresult
  | cyclic => cases hresult
  | abandoned => cases hresult
  | @completed image m₀ m w w' hb hread =>
      cases hresult
      have hdone := readModule_safe (resolveWithin_safe s depth) hs hb
      have hstages := readModule_underway (resolveWithin_underway s depth) m₀ image w
      rw [hread] at hdone hstages
      obtain ⟨hfinished, hid, hname⟩ := hdone
      obtain ⟨_, hnewcomers⟩ := hb.undisturbed hstages.1
      refine ⟨image, m, hb.decoded, hname ▸ hb.named, (hfinished.completed _).2.listed,
        hid ▸ hb.later.1, fun m' hm' => ?_⟩
      rcases List.mem_append.1 (Array.toList_push ▸ hm') with hm' | hm'
      · refine Or.inr ((hnewcomers m' hm').imp_right fun hnew heq => hnew ?_)
        rw [heq, hname]
        exact List.mem_cons_self
      · exact Or.inl (List.mem_singleton.1 hm')

end Searcher

namespace Vault

variable {v v' : Vault} {name : String} {version : Version} {id : ModuleId} {m : Module}

/-- A module that is found by its number is loaded and has it. -/
theorem mem_of_module? (h : v.module? id = some m) : m ∈ v.modules.toList ∧ m.id = id :=
  ⟨Array.mem_toList_iff.2 (Array.mem_of_find?_eq_some h), by simpa using Array.find?_some h⟩

/-- If a search finds nothing, the modules of the name have other versions. -/
theorem ne_of_findModule?_eq_none (h : v.findModule? name version = none)
    (hm : m ∈ v.modules.toList) (hname : m.name = name) : m.version ≠ version := by
  intro hversion
  rw [findModule?, Option.map_eq_none_iff, Array.find?_eq_none] at h
  exact h m (Array.mem_toList_iff.1 hm) (by simp [hname, hversion])

/-- The only module with a name and version is found by them. -/
theorem findModule?_of_only (hm : m ∈ v.modules.toList)
    (honly : ∀ m' ∈ v.modules.toList, m'.name = m.name → m'.version = m.version → m' = m) :
    v.findModule? m.name m.version = some m.id := by
  cases hfound : v.findModule? m.name m.version with
  | none => exact absurd rfl (ne_of_findModule?_eq_none hfound hm rfl)
  | some id =>
      obtain ⟨m', hm', hid, hname, hversion⟩ := exists_of_findModule? hfound
      rw [← hid, honly m' hm' hname hversion]

/-- The answer to a request has the version that was asked for. It has the name, and is the answer
to the same request again, which then changes nothing; or the searcher has loaded an image with
another name in its header, and it never gives this answer again. -/
theorem resolve_answers (hv : v.Reachable) (s : Searcher)
    (hresolve : s.resolve name version v = .ok id v') :
    ∃ m, v'.module? id = some m ∧ m.version = version ∧
      ((m.name = name ∧ s.resolve name version v' = .ok id v') ∨
        (m.name ≠ name ∧ s.resolve name version v' ≠ .ok id v' ∧
          ∃ bytes image, s.Finds name version v bytes ∧ ModuleImage.decode bytes = .ok image ∧
            image.name? = some m.name)) := by
  have hv' : v'.Reachable := by
    have hafter := hv.reaches (reaches_resolve s name version v)
    rwa [hresolve] at hafter
  rcases Searcher.resolve_eq_ok hresolve with ⟨hfound, rfl⟩ |
    ⟨depth, bytes, m, hfinds, hload, hm, hversion⟩
  · obtain ⟨m, hmem, rfl, hname, hversion⟩ := exists_of_findModule? hfound
    exact ⟨m, hv.distinct.module? hmem, hversion, Or.inl ⟨hname, hresolve⟩⟩
  · obtain ⟨image, m', hdecode, hheader, hm', _, honly⟩ := Searcher.loadImage_adds hv.sound hload
    cases hm.symm.trans hm'
    obtain ⟨hmem, rfl⟩ := mem_of_module? hm
    refine ⟨m, hm, hversion, ?_⟩
    by_cases hname : m.name = name
    · subst hname hversion
      refine Or.inl ⟨rfl, s.resolve_of_found
        (findModule?_of_only hmem fun m' hm' hname hversion => ?_)⟩
      rcases honly m' hm' with heq | hold | hother
      · exact heq
      · exact absurd hversion (ne_of_findModule?_eq_none hfinds.unloaded hold hname)
      · exact absurd hname hother
    · refine Or.inr ⟨hname, fun hagain => ?_, bytes, image, hfinds, hdecode, hheader⟩
      rcases Searcher.resolve_eq_ok hagain with ⟨hfound, _⟩ | ⟨_, _, _, _, hload', _⟩
      · obtain ⟨m', hm', hid, hname', _⟩ := exists_of_findModule? hfound
        rw [List.inj_on_of_nodup_map hv'.distinct hm' hmem hid] at hname'
        exact hname hname'
      · -- a second load would give a later number
        obtain ⟨_, _, _, _, _, hlater, _⟩ := Searcher.loadImage_adds hv'.sound hload'
        have hle := (hv'.sound.numbers m hmem).2
        omega

/-- A module that is loaded with its dependency is supplied a second time without a load. -/
theorem resolve_answers_twice : ∃ (s : Searcher) (version : Version) (v v' : Vault) (m : Module),
    v.Reachable ∧ s.resolve "app" version v = .ok 2 v' ∧ v'.modules.size = 2 ∧
      v'.module? 2 = some m ∧ m.name = "app" ∧ m.version = version ∧
      s.resolve "app" version v' = .ok 2 v' := by
  have hrun : (create {} {}).toOption.any fun v => (Version.read "1.0").toOption.any fun version =>
      (hollowImage "library" []).encode.toOption.any fun library =>
      (hollowImage "app" [⟨"library", "1.0"⟩]).encode.toOption.any fun app =>
        let s : Searcher := { images := [("library", library), ("app", app)] }
        let v' := stateAfter (s.resolve "app" version v)
        answerOf? (s.resolve "app" version v) = some 2 && v'.modules.size = 2 &&
          (v'.module? 2).any (·.name = "app") := by
    decide +kernel
  obtain ⟨v, hcreated, hrun⟩ := (Option.any_eq_true _ _).1 hrun
  obtain ⟨version, _, hrun⟩ := (Option.any_eq_true _ _).1 hrun
  obtain ⟨library, _, hrun⟩ := (Option.any_eq_true _ _).1 hrun
  obtain ⟨app, _, hrun⟩ := (Option.any_eq_true _ _).1 hrun
  simp only [Bool.and_eq_true, decide_eq_true_eq] at hrun
  obtain ⟨⟨hanswer, hsize⟩, hnamed⟩ := hrun
  have hv : v.Reachable := ⟨{}, {}, v, toOption_eq_some.1 hcreated, .refl v⟩
  have hresolve := eq_ok_of_answerOf? hanswer
  obtain ⟨m, hm, hversion, ⟨hname, hagain⟩ | ⟨hname, _⟩⟩ := resolve_answers hv _ hresolve
  · exact ⟨_, version, v, _, m, hv, hresolve, hsize, hm, hname, hversion, hagain⟩
  · rw [hm] at hnamed
    exact absurd (by simpa using hnamed) hname

/-- An image under a name that is not in its header is loaded again by the same request. -/
theorem resolve_misnamed : ∃ (s : Searcher) (version : Version) (v v' v'' : Vault) (m : Module),
    v.Reachable ∧ s.resolve "foo" version v = .ok 2 v' ∧ v'.module? 2 = some m ∧ m.name = "bar" ∧
      s.resolve "foo" version v' = .ok 3 v'' ∧ v'.modules.size = 1 ∧ v''.modules.size = 2 := by
  have hrun : (create {} {}).toOption.any fun v => (Version.read "1.0").toOption.any fun version =>
      (hollowImage "bar" []).encode.toOption.any fun bar =>
        let s : Searcher := { images := [("foo", bar)] }
        let v' := stateAfter (s.resolve "foo" version v)
        let v'' := stateAfter (s.resolve "foo" version v')
        answerOf? (s.resolve "foo" version v) = some 2 && v'.modules.size = 1 &&
          (v'.module? 2).any (·.name = "bar") &&
          answerOf? (s.resolve "foo" version v') = some 3 && v''.modules.size = 2 := by
    decide +kernel
  obtain ⟨v, hcreated, hrun⟩ := (Option.any_eq_true _ _).1 hrun
  obtain ⟨version, _, hrun⟩ := (Option.any_eq_true _ _).1 hrun
  obtain ⟨bar, _, hrun⟩ := (Option.any_eq_true _ _).1 hrun
  simp only [Bool.and_eq_true, decide_eq_true_eq] at hrun
  obtain ⟨⟨⟨⟨hfirst, hsize⟩, hnamed⟩, hsecond⟩, hsize'⟩ := hrun
  have hv : v.Reachable := ⟨{}, {}, v, toOption_eq_some.1 hcreated, .refl v⟩
  obtain ⟨m, hm, hname⟩ := (Option.any_eq_true _ _).1 hnamed
  exact ⟨_, version, v, _, _, m, hv, eq_ok_of_answerOf? hfirst, hm, of_decide_eq_true hname,
    eq_ok_of_answerOf? hsecond, hsize, hsize'⟩

end Vault

end VaultKernel
