import VaultKernel.Proofs.Vault.HeapInvariant
import VaultKernel.Proofs.Vault.LoadOutline

/-!
# Whole loads

A load either completes a module or leaves no class of it behind, whatever its resolver does that
is `Safe`: a resolver may itself load and dispose other modules. Read `loadImage_spec` first.
-/

namespace VaultKernel

open Arena Classes Vault

variable {R : Vault → Prop} {v v' w : Vault} {m : Module}

/-- What holds of a vault after a step that began in a sound one. -/
structure Vault.Safe (v v' : Vault) : Prop where
  sound : v'.Sound
  keeps : v.Keeps v'
  orderly : v.Orderly → v'.Orderly
  loading : v'.loading = v.loading

/-- A vault in which nothing happens is safe. -/
theorem Vault.Safe.refl (hs : v.Sound) : v.Safe v := ⟨hs, Keeps.refl v, id, rfl⟩

/-- Safe steps can follow one another. -/
theorem Vault.Safe.trans {v₁ v₂ v₃ : Vault} (h₁₂ : v₁.Safe v₂) (h₂₃ : v₂.Safe v₃) : v₁.Safe v₃ :=
  ⟨h₂₃.sound, h₁₂.keeps.trans h₂₃.keeps, h₂₃.orderly ∘ h₁₂.orderly, h₂₃.loading.trans h₁₂.loading⟩

/-- A resolver after which sound vaults are sound and loads under way can go on. -/
def Resolver.Safe (resolve : Resolver) : Prop :=
  ∀ name version (v : Vault), v.Sound → Ends (resolve name version v) (fun _ => v.Safe) v.Safe

/-- What a successful load adds to soundness. -/
structure Vault.Completed (v : Vault) (m : Module) : Prop where
  listed : v.module? m.id = some m
  formed : ∀ r c, r ∈ m.ownClasses → v.class? r = some c → c.Formed (v.Visible m) true
  referred : ∀ r ∈ m.refs, v.Visible m r

/-- A completed module is loaded. -/
theorem Vault.Completed.mem (hm : v.Completed m) : m ∈ v.modules.toList :=
  Array.mem_toList_iff.2 (Array.mem_of_find?_eq_some hm.listed)

/-- A finished module joins the others. -/
theorem Finished.completed (hf : Finished R m v) (loading : List String) :
    ({ v with modules := v.modules.push m, loading } : Vault).Sound ∧
      ({ v with modules := v.modules.push m, loading } : Vault).Completed m := by
  have hsound := hf.sound.push hf.number hf.owned_iff hf.laidOut
  refine ⟨hsound.congr rfl rfl rfl, ?_, fun r c hr hc => ?_, hf.referred⟩
  · -- no loaded module has the new number, so the look-up finds the last one
    have hnone : v.modules.find? (fun m' => decide (m'.id = m.id)) = none := by
      rw [Array.find?_eq_none]
      intro m' hm'
      simpa using hf.alone m' (Array.mem_toList_iff.2 hm')
    show (v.modules.push m).find? (fun m' => decide (m'.id = m.id)) = some m
    rw [Array.find?_push, hnone]
    simp
  · have hformed := hf.formed r c hr hc
    rw [decide_eq_true hr] at hformed
    exact hformed

/-- What is known of the vault during the load of a module. -/
structure Vault.Midway (v : Vault) (m : Module) (w : Vault) : Prop where
  keeps : v.Keeps w
  orderly : v.Orderly → w.Orderly
  loading : w.loading = m.name :: v.loading

/-- What a load does for itself leaves it on its way. -/
theorem Vault.Midway.private (hw : v.Midway m w) (hlater : v.tokens.lastModule.toNat < m.id.toNat)
    (hprivate : Private m.id w v') : v.Midway m v' := by
  refine ⟨hw.keeps.trans_private hlater hprivate, fun ho => ?_, ?_⟩
  · exact (hw.orderly ho).congr (by rw [hprivate.rest]) hprivate.laid
  · rw [hprivate.rest]
    exact hw.loading

/-- Safe steps do not disturb a load on its way. -/
theorem Vault.Midway.trans (hw : v.Midway m w) (hsafe : w.Safe v') : v.Midway m v' :=
  ⟨hw.keeps.trans hsafe.keeps, hsafe.orderly ∘ hw.orderly, hsafe.loading.trans hw.loading⟩

/-- A load that begins is on its way. -/
theorem Vault.Begins.midway {bytes : Wire.Bytes} {image : ModuleImage}
    (hb : v.Begins bytes image m w) : v.Midway m w := by
  refine ⟨?_, fun ho => ho.congr (by rw [hb.begun]) ?_, by rw [hb.begun]⟩
  · rw [hb.begun]
    exact (Keeps.grant hb.grants.le.1).trans (.of_eq rfl rfl rfl)
  · rw [hb.begun]
    exact fun _ _ hc _ => hc

/-- A safe resolver serves a load that is on its way. -/
theorem Vault.Midway.serves {resolve : Resolver} (hresolve : resolve.Safe) {u : Vault}
    (hu : v.Midway m u) (hs : u.Sound) (m' : Module) (name : String) (version : Version) :
    resolve.Serves (fun _ => v.Midway m) m' name version u :=
  (hresolve name version u hs).mono (fun _ _ h => ⟨h.sound, h.keeps, hu.trans h⟩)
    fun _ h => ⟨h.sound, h.keeps, hu.trans h⟩

/-- The stages finish the module, or leave behind only what goes with its number. -/
theorem readModule_safe {resolve : Resolver} (hresolve : resolve.Safe) (hs : v.Sound)
    {bytes : Wire.Bytes} {image : ModuleImage} (hb : v.Begins bytes image m w) :
    Ends (Run.readModule resolve m image w)
      (fun m' v' => Finished (v.Midway m) m' v' ∧ m'.id = m.id ∧ m'.name = m.name)
      (Stopped (v.Midway m) m.id) := by
  have hstubbed := hb.stubbed hs hb.midway fun _ _ hw => hw.private hb.later.1
  refine Ends.mono (readModule_spec (R := fun _ => v.Midway m)
    (fun _ _ _ hw => hw.private hb.later.1) hstubbed image
    fun _ _ m' u _ hsound hu => hu.serves hresolve hsound m' _ _) (fun _ _ => id) fun _ hstop => ?_
  exact hstop.mono fun _ h => h.choose_spec

/-- A load that asks for a dependency is still under way. -/
theorem Run.Requests.midway {resolve : Resolver} (hresolve : resolve.Safe) (hs : v.Sound)
    {bytes : Wire.Bytes} {image : ModuleImage} (hb : v.Begins bytes image m w)
    {e : Image.DependencyEntry} {version : Version} {m' : Module} {u : Vault}
    (h : Run.Requests resolve m image w e version m' u) : u.Sound ∧ v.Midway m u := by
  have hstubbed := hb.stubbed hs hb.midway fun _ _ hw => hw.private hb.later.1
  exact h.reached (R := fun _ => v.Midway m) (fun _ _ _ hw => hw.private hb.later.1) hstubbed
    fun _ _ m' u _ hsound hu => hu.serves hresolve hsound m' _ _

/-- A load completes a module or leaves a sound vault behind. -/
theorem loadImage_spec {resolve : Resolver} (hresolve : resolve.Safe) (hs : v.Sound)
    (bytes : Wire.Bytes) :
    Ends (Run.loadImage resolve bytes v)
      (fun id v' => v.Safe v' ∧ ∃ m, m.id = id ∧ v'.Completed m) v.Safe := by
  have hgrant : ∀ {tokens}, v.Grants tokens → v.Safe { v with tokens } := fun hg =>
    ⟨hs.grant hg.le.1 hg.le.2, .grant hg.le.1, fun ho => ho.congr rfl fun _ _ hc _ => hc, rfl⟩
  generalize hresult : Run.loadImage resolve bytes v = result
  have houtline := hresult ▸ loadImage_outline resolve bytes v
  cases houtline with
  | refused _ hg => exact hgrant hg
  | cyclic _ _ _ hg => exact hgrant hg
  | @completed image m m' w v' hb hread =>
      have hdone := readModule_safe hresolve hs hb
      rw [hread] at hdone
      obtain ⟨hfinished, hid, hname⟩ := hdone
      have hmid := hfinished.around
      have hlater := hb.later.1
      rw [← hid] at hlater
      obtain ⟨hsound, hcompleted⟩ := hfinished.completed (v'.loading.erase m'.name)
      refine ⟨⟨hsound, (hmid.keeps.push hlater).trans (.of_eq rfl rfl rfl), fun ho => ?_, ?_⟩,
        m', rfl, hcompleted⟩
      · exact (hmid.orderly ho).congr rfl fun _ _ hc _ => hc
      · show v'.loading.erase m'.name = v.loading
        rw [hname, hmid.loading, List.erase_cons_head]
  | @abandoned image m w v' e hb hread =>
      -- the stages went as far as they could, and what they stored is removed by its owner
      have hdone := readModule_safe hresolve hs hb
      rw [hread] at hdone
      have hmid := hdone.around
      have hsound : ({ v' with loading := v'.loading.erase m.name } : Vault).Sound :=
        hdone.sound.congr rfl rfl rfl
      have hkeeps : v.Keeps { v' with loading := v'.loading.erase m.name } :=
        hmid.keeps.trans (.of_eq rfl rfl rfl)
      refine ⟨hsound.release (List.Subset.refl _) hdone.core_lt hdone.alone,
        hkeeps.release hsound.arena (Or.inr hb.later.1), fun ho => ?_, ?_⟩
      · have hmiddle : ({ v' with loading := v'.loading.erase m.name } : Vault).Orderly :=
          (hmid.orderly ho).congr rfl fun _ _ hc _ => hc
        exact hmiddle.release hsound.arena m.id
      · show v'.loading.erase m.name = v.loading
        rw [hmid.loading, List.erase_cons_head]

end VaultKernel
