import Mathlib.Data.List.Perm.Subperm
import VaultKernel.Proofs.Vault.Failures
import VaultKernel.Proofs.Vault.Nesting

/-!
# Cycles

A load that fails with a cycle has found one. `Searcher.Leads` is the graph of the images that a
searcher has: one image leads to another one if it asks for a module and the searcher answers with
the other one. The loads that are under way follow this graph (`LoadCall.Traced`), and as they all
have different names, there are never as many of them as the searcher allows. The main statement is
`Searcher.cyclic_of_load`.
-/

namespace VaultKernel

open Relation Vault

/-! ## Images -/

/-- The content is that of a file of the tree. -/
def FileTree.Place.Known (t : FileTree) : FileTree.Place → Prop
  | .directory _ => True
  | .file content => content ∈ t.files.map (·.2)

/-- What is looked up in a list is in it. -/
theorem mem_of_lookup {α β : Type} [BEq α] [LawfulBEq α] {entries : List (α × β)} {key : α}
    {value : β} (h : entries.lookup key = some value) : value ∈ entries.map (·.2) := by
  obtain ⟨before, after, rfl, _⟩ := List.lookup_eq_some_iff.1 h
  simp

/-- A place that is reached from a known one is known. -/
theorem FileTree.step_known {t : FileTree} {place place' : Place} {component : String}
    (hplace : place.Known t) (h : t.step place component = .ok place') : place'.Known t := by
  unfold FileTree.step at h
  split at h
  · cases h
  · split at h
    · cases h
      exact hplace
    · split at h
      · cases h
        trivial
      · split at h
        · cases h
        · dsimp only at h
          split at h
          · next hfile =>
              cases h
              exact mem_of_lookup hfile
          · split at h
            · cases h
              trivial
            · cases h

/-- What is read from a tree is the content of one of its files. -/
theorem FileTree.mem_of_read {t : FileTree} {path : String} {content : Wire.Bytes}
    (h : t.read path = .ok content) : content ∈ t.files.map (·.2) := by
  unfold FileTree.read at h
  split at h
  · next hfollow =>
      cases h
      unfold FileTree.follow at hfollow
      split at hfollow
      · cases hfollow
      split at hfollow
      · cases hfollow
      split at hfollow
      · cases hfollow
      have hstart : ∀ start, (Place.directory start).Known t := fun _ => trivial
      exact of_foldlM_eq_ok (P := Place.Known t) (fun _ _ _ => step_known) (hstart _) hfollow
  · cases h
  · cases h

namespace Searcher

variable {s : Searcher} {root image first last : ModuleImage} {n : String}

/-- All images of a searcher. -/
def contents (s : Searcher) : List Wire.Bytes := s.images.map (·.2) ++ s.files.files.map (·.2)

/-- An image that a searcher answers with is one that it has. -/
theorem mem_contents_of_image {bytes : Wire.Bytes} (h : s.image n = .ok bytes) :
    bytes ∈ s.contents := by
  unfold Searcher.image at h
  split at h
  · next hlookup =>
      cases h
      exact List.mem_append_left _ (mem_of_lookup hlookup)
  · split at h
    · next path _ =>
        cases hread : s.files.read path with
        | error e =>
            rw [hread] at h
            cases h
        | ok content =>
            rw [hread] at h
            cases h
            exact List.mem_append_right _ (FileTree.mem_of_read hread)
    · cases h

/-- A missing image is no cycle. -/
theorem image_plain {e : Failure} (h : s.image n = .error e) : e.Plain := by
  rcases image_eq_error h with rfl | ⟨error, rfl⟩
  · exact Failure.plain_fatal _
  · intro n h
    cases h

/-- One image asks for a module, and another one is what the searcher has under its name. -/
def Leads (s : Searcher) (image image' : ModuleImage) : Prop :=
  ∃ e ∈ image.dependencies, ∃ bytes, s.image e.name = .ok bytes ∧
    ModuleImage.decode bytes = .ok image'

/-- Below an image there is one with the name `n` in its header, from which requests lead to a
request for `n` or to an image with this name again. -/
def Cyclic (s : Searcher) (root : ModuleImage) (n : String) : Prop :=
  ∃ first last, ReflTransGen s.Leads root first ∧ first.name? = some n ∧
    ((ReflTransGen s.Leads first last ∧ ∃ e ∈ last.dependencies, e.name = n) ∨
      (TransGen s.Leads first last ∧ last.name? = some n))

/-- The names in the headers of an image and of those that a searcher has. -/
def headers (s : Searcher) (root : ModuleImage) : List String :=
  root.name?.toList ++
    s.contents.filterMap fun bytes => (ModuleImage.decode bytes).toOption.bind ModuleImage.name?

/-- There are no more names than images and files, and the one at the root. -/
theorem length_headers_le (s : Searcher) (root : ModuleImage) :
    (s.headers root).length ≤ s.images.length + s.files.files.length + 1 := by
  have hroot : root.name?.toList.length ≤ 1 := by
    cases root.name? <;> simp
  have hcontents := List.length_filterMap_le
    (fun bytes => (ModuleImage.decode bytes).toOption.bind ModuleImage.name?) s.contents
  have hsplit : s.contents.length = s.images.length + s.files.files.length := by
    simp [contents]
  rw [headers, List.length_append]
  omega

/-- A name below the root is the name of an image that the searcher has, or of the root. -/
theorem mem_headers (h : ReflTransGen s.Leads root image) (hname : image.name? = some n) :
    n ∈ s.headers root := by
  rw [headers, List.mem_append]
  rcases h.cases_tail with rfl | ⟨_, _, e, _, bytes, himage, hdecode⟩
  · exact Or.inl (by simp [hname])
  · refine Or.inr (List.mem_filterMap.2 ⟨bytes, mem_contents_of_image himage, ?_⟩)
    rw [hdecode]
    exact hname

end Searcher

/-! ## Loads under way -/

namespace LoadCall

variable {s : Searcher} {c c' : LoadCall} {root image : ModuleImage} {m : Module} {w : Vault}

/-- The name belongs to an image below the root from which requests lead to the given one. -/
def Above (s : Searcher) (root image : ModuleImage) (n : String) : Prop :=
  ∃ first, ReflTransGen s.Leads root first ∧ first.name? = some n ∧ TransGen s.Leads first image

/-- The loads around a load: there are as many as the depth says, under different names, and they
follow the requests from the root to the image. -/
structure Traced (s : Searcher) (root : ModuleImage) (c : LoadCall) : Prop where
  sound : c.vault.Sound
  depth : c.vault.loading.length + c.depth = s.depth
  distinct : c.vault.loading.Nodup
  below : ∀ image, ModuleImage.decode c.bytes = .ok image → ReflTransGen s.Leads root image
  above : ∀ image, ModuleImage.decode c.bytes = .ok image →
    ∀ n ∈ c.vault.loading, Above s root image n

/-- A name that is being loaded when an image asks for a module. -/
theorem Traced.cyclic (h : c.Traced s root) (hb : c.vault.Begins c.bytes image m w) {n : String}
    (hn : n ∈ m.name :: c.vault.loading) :
    ∃ first, ReflTransGen s.Leads root first ∧ first.name? = some n ∧
      ReflTransGen s.Leads first image := by
  rcases List.mem_cons.1 hn with rfl | hn
  · exact ⟨image, h.below image hb.decoded, hb.named, .refl⟩
  · obtain ⟨first, hbelow, hname, hleads⟩ := h.above image hb.decoded n hn
    exact ⟨first, hbelow, hname, hleads.to_reflTransGen⟩

/-- There is room for the loads that are under way. -/
theorem Traced.depth_pos (h : c.Traced s root) (hb : c.vault.Begins c.bytes image m w) :
    0 < c.depth := by
  have hdistinct : (m.name :: c.vault.loading).Nodup := List.nodup_cons.2 ⟨hb.fresh, h.distinct⟩
  have hsub : m.name :: c.vault.loading ⊆ s.headers root := by
    intro n hn
    obtain ⟨first, hbelow, hname, _⟩ := h.cyclic hb hn
    exact Searcher.mem_headers hbelow hname
  have hcount := (List.subperm_of_subset hdistinct hsub).length_le
  have hheaders := s.length_headers_le root
  have hdepth := h.depth
  rw [List.length_cons] at hcount
  unfold Searcher.depth at hdepth
  omega

/-- A load that is made by a traced one is traced. -/
theorem Traced.nests (h : c.Traced s root) (hnests : Nests s c c') : c'.Traced s root := by
  obtain @⟨depth, bytes, bytes', v, w, u, image, m, m', e, version, hb, hrequest, hfinds⟩ := hnests
  obtain ⟨hsound, hmidway⟩ := hrequest.midway (resolveWithin_safe s _) h.sound hb
  have hdepth := h.depth
  have hleads : ∀ image', ModuleImage.decode bytes' = .ok image' → s.Leads image image' :=
    fun image' hdecode => ⟨e, hrequest.mem, bytes', hfinds.image, hdecode⟩
  refine ⟨hsound, ?_, ?_, fun image' hdecode => ?_, fun image' hdecode n hn => ?_⟩
  · rw [hmidway.loading]
    simp only [List.length_cons] at hdepth ⊢
    omega
  · rw [hmidway.loading]
    exact List.nodup_cons.2 ⟨hb.fresh, h.distinct⟩
  · exact (h.below image hb.decoded).tail (hleads image' hdecode)
  · rw [hmidway.loading] at hn
    obtain ⟨first, hbelow, hname, habove⟩ := h.cyclic hb hn
    exact ⟨first, hbelow, hname, TransGen.tail' habove (hleads image' hdecode)⟩

/-- A request that is answered with a cycle. -/
theorem Traced.cyclic_of_request (h : c.Traced s root)
    (hnested : ∀ c' n v', Nests s c c' → c'.run s = .error (.dependencyCycle n) v' →
      s.Cyclic root n)
    (hb : c.vault.Begins c.bytes image m w) {e : Image.DependencyEntry} {version : Version}
    {m' : Module} {u v' : Vault} {n : String}
    (hrequest : Run.Requests (s.resolveWithin c.depth) m image w e version m' u)
    (hfailed : s.resolveWithin c.depth e.name version u = .error (.dependencyCycle n) v') :
    s.Cyclic root n := by
  obtain ⟨_, hmidway⟩ := hrequest.midway (resolveWithin_safe s _) h.sound hb
  have hpos := h.depth_pos hb
  obtain ⟨depth, bytes, v⟩ := c
  have hsupplies := hfailed ▸ Searcher.resolveWithin_supplies s depth e.name version u
  cases hsupplies with
  | exhausted => exact absurd hpos (Nat.lt_irrefl 0)
  | cyclic hloading =>
      rw [hmidway.loading] at hloading
      obtain ⟨first, hbelow, hname, habove⟩ := h.cyclic hb hloading
      exact ⟨first, image, hbelow, hname, Or.inl ⟨habove, e, hrequest.mem, rfl⟩⟩
  | missing hmissing => exact absurd rfl (Searcher.image_plain hmissing n)
  | failed hfinds hrun => exact hnested _ _ _ (.intro hb hrequest hfinds) hrun

/-- A load of a traced image reports a true cycle, if the loads that it makes do. -/
theorem Traced.cyclic_of_nested (h : c.Traced s root)
    (hnested : ∀ c' n v', Nests s c c' → c'.run s = .error (.dependencyCycle n) v' →
      s.Cyclic root n) {n : String} {v' : Vault}
    (hrun : c.run s = .error (.dependencyCycle n) v') : s.Cyclic root n := by
  obtain ⟨image, hdecode, ⟨hname, hloading⟩ |
    ⟨m, w, e, version, m', u, u', hb, hrequest, hfailed⟩⟩ := loadImage_eq_cycle hrun
  · obtain ⟨first, hbelow, hfirst, habove⟩ := h.above image hdecode n hloading
    exact ⟨first, image, hbelow, hfirst, Or.inr ⟨habove, hname⟩⟩
  · exact h.cyclic_of_request hnested hb hrequest hfailed

/-- A load that reports a cycle has found one, by recursion over the loads that it makes. -/
theorem Traced.cyclic_of_run (h : c.Traced s root) {n : String} {v' : Vault}
    (hrun : c.run s = .error (.dependencyCycle n) v') : s.Cyclic root n := by
  obtain ⟨depth, bytes, v⟩ := c
  induction depth generalizing bytes v n v' with
  | zero => exact h.cyclic_of_nested (fun c' _ _ hnests => nomatch hnests) hrun
  | succ depth ih =>
      refine h.cyclic_of_nested (fun c' n v' hnests hrun => ?_) hrun
      have htraced := h.nests hnests
      cases hnests with
      | intro => exact ih _ _ htraced hrun

end LoadCall

/-- Where a load that is not nested in another one fails with a cycle, there is one. -/
theorem Searcher.cyclic_of_load (s : Searcher) {bytes : Wire.Bytes} {v v' : Vault} {n : String}
    (hs : v.Sound) (hidle : v.loading = [])
    (hload : s.load bytes v = .error (.dependencyCycle n) v') :
    ∃ root, ModuleImage.decode bytes = .ok root ∧ s.Cyclic root n := by
  obtain ⟨root, hdecode, _⟩ := loadImage_eq_cycle hload
  have hrun : LoadCall.run s ⟨s.depth, bytes, v⟩ = .error (.dependencyCycle n) v' := hload
  refine ⟨root, hdecode, LoadCall.Traced.cyclic_of_run ⟨hs, ?_, ?_, ?_, ?_⟩ hrun⟩
  · simp [hidle]
  · simp [hidle]
  · intro image himage
    cases hdecode.symm.trans himage
    exact .refl
  · simp [hidle]

end VaultKernel
