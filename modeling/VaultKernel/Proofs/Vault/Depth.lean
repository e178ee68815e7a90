import Mathlib.Data.Set.Card
import VaultKernel.Proofs.Image.RoundTrip
import VaultKernel.Proofs.Vault.Layering
import VaultKernel.Proofs.Vault.LoadsUnderway

/-!
# How deep loads nest

A searcher asks for images by their keys, but what is being loaded goes by the names in their
headers. Each load that begins marks such a name, and only unmarked ones can begin; so below the
outermost load, which may have any image, the unmarked names in the headers of the searcher's images
become fewer with each level. `Searcher.supply` is one level of the search without a bound.
`Searcher.iterate_supply` says that nothing below enough levels is ever asked for, and
`Searcher.nesting_bounded` that the search is the only solution of its equation and how deep its
loads nest.
-/

namespace VaultKernel

open Vault

namespace Searcher

variable {s : Searcher} {name : String} {version : Version} {v : Vault}

/-- The names in the headers of the images that a searcher has, whatever their keys. -/
def headerNames (s : Searcher) : Set String :=
  {n | ∃ key bytes image, s.image key = .ok bytes ∧ ModuleImage.decode bytes = .ok image ∧
    image.name? = some n}

/-- Supplies a module; the images that are loaded for it get their dependencies from `inner`. -/
def supply (s : Searcher) (inner : Resolver) : Resolver := fun name version => do
  let v ← get
  match v.findModule? name version with
  | some id => return id
  | none =>
    if v.isLoading name then throw (.dependencyCycle name)
    else
      let bytes ← Run.answer (s.image name)
      checkVersion name version (← Run.loadImage inner bytes)

/-- A request at one depth supplies images whose requests are made at the depth below. -/
theorem resolveWithin_succ (s : Searcher) (depth : Nat) :
    s.resolveWithin (depth + 1) = s.supply (s.resolveWithin depth) := rfl

/-- A request depends on the resolver below it only where it loads an image. -/
theorem supply_congr {inner inner' : Resolver}
    (hloads : ∀ bytes, s.Finds name version v bytes →
      Run.loadImage inner bytes v = Run.loadImage inner' bytes v) :
    s.supply inner name version v = s.supply inner' name version v := by
  refine bind_congr_run rfl fun u _ hget => ?_
  cases hget
  cases hfound : v.findModule? name version with
  | some id => rfl
  | none =>
      cases hloading : v.isLoading name with
      | true => rw [if_pos rfl, if_pos rfl]
      | false =>
          refine bind_congr_run rfl fun bytes w hanswer => ?_
          obtain ⟨himage, rfl⟩ := answer_eq_ok hanswer
          have hfinds : s.Finds name version w bytes :=
            ⟨hfound, by simpa [isLoading] using hloading, himage⟩
          exact bind_congr_run (hloads bytes hfinds) fun _ _ _ => rfl

/-! ## Names that are left -/

/-- The names in the headers are read from the images that a searcher has. -/
theorem headerNames_subset (s : Searcher) : s.headerNames ⊆ {n | n ∈ s.contents.filterMap
    fun bytes => (ModuleImage.decode bytes).toOption.bind ModuleImage.name?} := by
  rintro n ⟨key, bytes, image, himage, hdecode, hname⟩
  refine List.mem_filterMap.2 ⟨bytes, mem_contents_of_image himage, ?_⟩
  rw [hdecode]
  exact hname

/-- There are finitely many names in the headers. -/
theorem headerNames_finite (s : Searcher) : s.headerNames.Finite :=
  (List.finite_toSet _).subset s.headerNames_subset

/-- There are no more names in the headers than images. -/
theorem ncard_headerNames_le (s : Searcher) : s.headerNames.ncard ≤ s.contents.length := by
  have hsubset := s.headerNames_subset
  rw [← List.coe_toFinset] at hsubset
  calc s.headerNames.ncard
    _ ≤ _ := Set.ncard_le_ncard hsubset (Finset.finite_toSet _)
    _ = _ := Set.ncard_coe_finset _
    _ ≤ _ := List.toFinset_card_le _
    _ ≤ s.contents.length := List.length_filterMap_le _ _

/-- The depth is greater than the number of names. -/
theorem ncard_headerNames_lt (s : Searcher) : s.headerNames.ncard < s.depth := by
  have hle := s.ncard_headerNames_le
  rw [contents, List.length_append, List.length_map, List.length_map] at hle
  unfold depth
  omega

/-- How many of the searcher's images can still begin to load while these names are marked, counted
by the names in their headers. -/
noncomputable def unmarked (s : Searcher) (marked : List String) : Nat :=
  (s.headerNames \ {n | n ∈ marked}).ncard

/-- There are no more unmarked names than names. -/
theorem unmarked_le (s : Searcher) (marked : List String) :
    s.unmarked marked ≤ s.headerNames.ncard :=
  Set.ncard_le_ncard Set.sdiff_subset s.headerNames_finite

/-- A load that begins with an image of the searcher marks one of its names. -/
theorem unmarked_lt {key : String} {bytes : Wire.Bytes} {image : ModuleImage} {m : Module}
    {w : Vault} (himage : s.image key = .ok bytes) (hb : v.Begins bytes image m w) :
    s.unmarked (m.name :: v.loading) < s.unmarked v.loading := by
  refine Set.ncard_lt_ncard ?_ (s.headerNames_finite.subset Set.sdiff_subset)
  refine Set.ssubset_iff_subset_ne.2 ⟨?_, fun heq => ?_⟩
  · exact Set.sdiff_subset_sdiff_right fun n hn => List.mem_cons_of_mem _ hn
  · have hmem : m.name ∈ s.headerNames \ {n | n ∈ v.loading} :=
      ⟨⟨key, bytes, image, himage, hb.decoded, hb.named⟩, hb.fresh⟩
    rw [← heq] at hmem
    exact hmem.2 List.mem_cons_self

/-! ## Levels -/

/-- With more levels than names are left, it does not matter what stands below them. -/
theorem iterate_supply_agrees {levels depth : Nat} (base : Resolver)
    (hlevels : s.unmarked v.loading < levels) (hdepth : s.unmarked v.loading < depth) :
    (s.supply^[levels] base) name version v = s.resolveWithin depth name version v := by
  induction levels generalizing depth name version v with
  | zero => exact absurd hlevels (Nat.not_lt_zero _)
  | succ levels ih =>
      obtain ⟨depth, rfl⟩ : ∃ k, depth = k + 1 := Nat.exists_eq_succ_of_ne_zero (by omega)
      rw [Function.iterate_succ_apply', resolveWithin_succ]
      refine supply_congr fun bytes hfinds => loadImage_congr fun image m w hb => ?_
      have hloading : w.loading = m.name :: v.loading := by rw [hb.begun]
      have hlt := unmarked_lt hfinds.image hb
      refine readModule_congr (fun _ _ => resolveWithin_underway s depth _ _) ?_ hloading m image
      intro u hu name version
      exact ih (by rw [hu]; omega) (by rw [hu]; omega)

/-- More levels than there are names in headers are the whole search. -/
theorem iterate_supply {levels : Nat} (hlevels : s.headerNames.ncard < levels) (base : Resolver) :
    s.supply^[levels] base = s.resolve := by
  funext name version v
  have hle := s.unmarked_le v.loading
  have hlt := s.ncard_headerNames_lt
  exact iterate_supply_agrees base (by omega) (by omega)

/-- Supplying images by the same searcher again gives the same resolver. -/
theorem supply_resolve (s : Searcher) : s.supply s.resolve = s.resolve := by
  have hlevels := iterate_supply (Nat.lt_succ_self s.headerNames.ncard) s.resolve
  have hmore := iterate_supply (Nat.lt_succ_of_lt (Nat.lt_succ_self s.headerNames.ncard)) s.resolve
  rw [Function.iterate_succ_apply', hlevels] at hmore
  exact hmore

/-! ## Calls -/

/-- A load of one image in a vault loads another image, in the vault that it has made by then. -/
def Calls (s : Searcher) (outer inner : Wire.Bytes × Vault) : Prop :=
  ∃ image m w e version m', outer.2.Begins outer.1 image m w ∧
    Run.Requests s.resolve m image w e version m' inner.2 ∧
    s.Finds e.name version inner.2 inner.1

/-- The load that calls another one has marked its name. -/
theorem Calls.marked {outer inner : Wire.Bytes × Vault} (h : s.Calls outer inner) :
    (∃ key, s.image key = .ok inner.1) ∧ ∃ image m w, outer.2.Begins outer.1 image m w ∧
      inner.2.loading = m.name :: outer.2.loading := by
  obtain ⟨image, m, w, e, version, m', hb, hrequest, hfinds⟩ := h
  refine ⟨⟨e.name, hfinds.image⟩, image, m, w, hb, ?_⟩
  rw [(hrequest.underway (resolveWithin_underway s s.depth)).loading, hb.begun]

/-- Below a load of one of the searcher's images there are no more loads than names are left. -/
theorem length_le_of_calls {key : String} {first : Wire.Bytes × Vault}
    {calls : List (Wire.Bytes × Vault)} (himage : s.image key = .ok first.1)
    (hcalls : (first :: calls).IsChain s.Calls) : calls.length ≤ s.unmarked first.2.loading := by
  induction calls generalizing first key with
  | nil => exact Nat.zero_le _
  | cons next calls ih =>
      obtain ⟨hcall, hrest⟩ := List.isChain_cons_cons.1 hcalls
      obtain ⟨⟨key', himage'⟩, image, m, w, hb, hloading⟩ := hcall.marked
      have hle := ih himage' hrest
      have hlt := unmarked_lt himage hb
      rw [hloading] at hle
      rw [List.length_cons]
      omega

/-- The search without a bound has exactly one solution, which is what `resolve` does; a load does
not depend on what is answered below a level for each name in the headers of the images and one
more; and loads that call each other are at most two more than these names. -/
theorem nesting_bounded (s : Searcher) :
    s.headerNames.Finite ∧
    (∀ r, s.supply r = r ↔ r = s.resolve) ∧
    (∀ base bytes v,
      Run.loadImage (s.supply^[s.headerNames.ncard + 1] base) bytes v = s.load bytes v) ∧
    ∀ calls : List (Wire.Bytes × Vault), calls.IsChain s.Calls →
      calls.length ≤ s.headerNames.ncard + 2 := by
  refine ⟨s.headerNames_finite, fun r => ⟨fun hr => ?_, ?_⟩, fun base bytes v => ?_, ?_⟩
  · rw [← iterate_supply s.ncard_headerNames_lt r, Function.iterate_fixed hr]
  · rintro rfl
    exact s.supply_resolve
  · rw [iterate_supply (Nat.lt_succ_self _)]
    rfl
  · intro calls hcalls
    match calls, hcalls with
    | [], _ | [_], _ => simp
    | outermost :: next :: calls, hcalls =>
        obtain ⟨hcall, hrest⟩ := List.isChain_cons_cons.1 hcalls
        obtain ⟨⟨key, himage⟩, _⟩ := hcall.marked
        have hle := length_le_of_calls himage hrest
        have hnames := s.unmarked_le next.2.loading
        simp only [List.length_cons]
        omega

/-- A module without classes asks for its only dependency at once. -/
theorem calls_of_hollow {bytes bytes' : Wire.Bytes} {n key : String} {id : ModuleId}
    {tokens : TokenCounter} {version : Version} (hversion : Version.read "1.0" = .ok version)
    (hdecode : ModuleImage.decode bytes = .ok (hollowImage n [⟨key, "1.0"⟩]))
    (hnext : v.tokens.nextModule? = some (id, tokens)) (hfresh : n ∉ v.loading)
    (hfinds : s.Finds key version { v with tokens, loading := n :: v.loading } bytes') :
    s.Calls (bytes, v) (bytes', { v with tokens, loading := n :: v.loading }) := by
  have hname : (hollowImage n [⟨key, "1.0"⟩]).name? = some n := rfl
  exact ⟨_, { id, name := n, strings := {} }, _, ⟨key, "1.0"⟩, version, _,
    ⟨hdecode, hname, hfresh, rfl, hnext, rfl⟩, ⟨_, _, rfl, ⟨[], [], rfl, rfl⟩, hversion, rfl⟩,
    hfinds⟩

/-- An image under the key `loop` asks for this key, but its header says `ring`: the second load of
it is the third of three loads that call each other, and it is refused. -/
theorem nesting_bounded_attained : ∃ (s : Searcher) (calls : List (Wire.Bytes × Vault)),
    calls.IsChain s.Calls ∧ calls.length = s.headerNames.ncard + 2 := by
  have hrun : (create {} {}).toOption.any fun v => (Version.read "1.0").toOption.any fun version =>
      (hollowImage "top" [⟨"loop", "1.0"⟩]).encode.toOption.any fun top =>
      (hollowImage "ring" [⟨"loop", "1.0"⟩]).encode.toOption.any fun ring =>
        v.tokens.nextModule?.any fun granted => granted.2.nextModule?.isSome := by
    decide +kernel
  obtain ⟨v, hcreated, hrun⟩ := (Option.any_eq_true _ _).1 hrun
  obtain ⟨version, hversion, hrun⟩ := (Option.any_eq_true _ _).1 hrun
  obtain ⟨top, htop, hrun⟩ := (Option.any_eq_true _ _).1 hrun
  obtain ⟨ring, hring, hrun⟩ := (Option.any_eq_true _ _).1 hrun
  obtain ⟨⟨id, tokens⟩, hnext, hrun⟩ := (Option.any_eq_true _ _).1 hrun
  obtain ⟨⟨id', tokens'⟩, hnext'⟩ := Option.isSome_iff_exists.1 hrun
  rw [toOption_eq_some] at hcreated hversion htop hring
  have hdecode : ∀ {n bytes}, (hollowImage n [⟨"loop", "1.0"⟩]).encode = .ok bytes →
      ModuleImage.decode bytes = .ok (hollowImage n [⟨"loop", "1.0"⟩]) := by
    intro n bytes hencoded
    have hread := (Mirrors.moduleImage (by simp [hollowImage]) (by simp [hollowImage]) bytes
      hencoded).2.decode []
    rwa [List.append_nil] at hread
  obtain ⟨hmodules, hloading⟩ := create_bare hcreated
  let s : Searcher := { images := [("loop", ring)] }
  have hfinds : ∀ {u : Vault}, u.modules = #[] → "loop" ∉ u.loading →
      s.Finds "loop" version u ring := by
    intro u hmodules hidle
    exact ⟨by simp [findModule?, hmodules], hidle, rfl⟩
  have hchain : List.IsChain s.Calls [(top, v),
      (ring, { v with tokens, loading := "top" :: v.loading }),
      (ring, { v with tokens := tokens', loading := "ring" :: "top" :: v.loading })] := by
    refine List.isChain_cons_cons.2 ⟨?_, List.isChain_cons_cons.2 ⟨?_, .singleton _⟩⟩
    · exact calls_of_hollow hversion (hdecode htop) hnext (by simp [hloading])
        (hfinds hmodules (by simp [hloading]))
    · exact calls_of_hollow hversion (hdecode hring) hnext' (by simp [hloading])
        (hfinds hmodules (by simp [hloading]))
  have hnames : s.headerNames.ncard ≤ 1 := s.ncard_headerNames_le
  have hbound := s.nesting_bounded.2.2.2 _ hchain
  refine ⟨s, _, hchain, ?_⟩
  simp only [List.length_cons, List.length_nil] at hbound ⊢
  omega

end Searcher

end VaultKernel
