import VaultKernel.Proofs.Vault.AddedModules
import VaultKernel.Proofs.Vault.Reachable

/-!
# Nested loads

The loads of a searcher call each other: a load asks the searcher for a dependency, and the searcher
loads an image. `Supplies` lists what can come of such a request, and `LoadCall.Nests` says that one
load makes another one. The main statement is `LoadCall.grows`: whatever comes of a load, it has
only added modules, each of which some load made by it has completed.
-/

namespace VaultKernel

open Relation Vault Classes

/-- A load of a searcher. -/
structure LoadCall where
  /-- The number of loads that may be nested in this one. -/
  depth : Nat
  bytes : Wire.Bytes
  /-- The vault in which the load begins. -/
  vault : Vault

/-- The outcome of a load. -/
def LoadCall.run (s : Searcher) (c : LoadCall) : EStateM.Result Failure Vault ModuleId :=
  Run.loadImage (s.resolveWithin c.depth) c.bytes c.vault

/-- The number that a search finds is that of a loaded module with the name and the version. -/
theorem Vault.exists_of_findModule? {v : Vault} {name : String} {version : Version} {id : ModuleId}
    (h : v.findModule? name version = some id) :
    ∃ m ∈ v.modules.toList, m.id = id ∧ m.name = name ∧ m.version = version := by
  obtain ⟨m, hfound, hid⟩ := Option.map_eq_some_iff.1 h
  have hm := Array.mem_toList_iff.2 (Array.mem_of_find?_eq_some hfound)
  have hmatch := Array.find?_some hfound
  simp only [Bool.and_eq_true, decide_eq_true_eq] at hmatch
  exact ⟨m, hm, hid, hmatch.1, hmatch.2⟩

namespace Searcher

variable {s : Searcher} {name : String} {version : Version} {v : Vault}

/-- The searcher has an image for a module that is neither loaded nor being loaded. -/
structure Finds (s : Searcher) (name : String) (version : Version) (v : Vault)
    (bytes : Wire.Bytes) : Prop where
  unloaded : v.findModule? name version = none
  idle : name ∉ v.loading
  image : s.image name = .ok bytes

/-- An image is not found, or its file cannot be read. -/
theorem image_eq_error {e : Failure} (h : s.image name = .error e) :
    e = .fatal (.imageNotFound name s.paths.length) ∨ ∃ error, e = .file error := by
  unfold Searcher.image at h
  split at h
  · cases h
  · split at h
    · next path _ =>
        cases hread : s.files.read path with
        | error error =>
            rw [hread] at h
            cases h
            exact Or.inr ⟨error, rfl⟩
        | ok content =>
            rw [hread] at h
            cases h
    · cases h
      exact Or.inl rfl

/-- What comes of a request. -/
inductive Supplies (s : Searcher) (name : String) (version : Version) (v : Vault) :
    Nat → EStateM.Result Failure Vault ModuleId → Prop where
  | exhausted : Supplies s name version v 0 (.error (.dependencyCycle name) v)
  | reused {depth : Nat} {id : ModuleId} : v.findModule? name version = some id →
      Supplies s name version v (depth + 1) (.ok id v)
  | cyclic {depth : Nat} : name ∈ v.loading →
      Supplies s name version v (depth + 1) (.error (.dependencyCycle name) v)
  | missing {depth : Nat} {e : Failure} : s.image name = .error e →
      Supplies s name version v (depth + 1) (.error e v)
  | loaded {depth : Nat} {bytes : Wire.Bytes} {id : ModuleId} {v' : Vault} :
      s.Finds name version v bytes → LoadCall.run s ⟨depth, bytes, v⟩ = .ok id v' →
      Supplies s name version v (depth + 1) (.ok id v')
  | mismatched {depth : Nat} {bytes : Wire.Bytes} {id : ModuleId} {v' : Vault} {cause : Fatal} :
      s.Finds name version v bytes → LoadCall.run s ⟨depth, bytes, v⟩ = .ok id v' →
      checkVersion name version id v' = .error (.fatal cause) v' →
      Supplies s name version v (depth + 1) (.error (.fatal cause) v')
  | failed {depth : Nat} {bytes : Wire.Bytes} {e : Failure} {v' : Vault} :
      s.Finds name version v bytes → LoadCall.run s ⟨depth, bytes, v⟩ = .error e v' →
      Supplies s name version v (depth + 1) (.error e v')

/-- The check of a version either passes or stops for good, and changes nothing. -/
theorem checkVersion_cases (name : String) (version : Version) (id : ModuleId) (v : Vault) :
    checkVersion name version id v = .ok id v ∨
      ∃ cause, checkVersion name version id v = .error (.fatal cause) v := by
  refine of_bind (P := fun result => result = .ok id v ∨
      ∃ cause, result = .error (Failure.fatal cause) v)
    (fun u _ hget => ?_) fun _ _ hget => ?_
  · cases hget
    cases v.module? id with
    | none => exact Or.inr ⟨_, rfl⟩
    | some m =>
        by_cases hversion : m.version = version
        · refine Or.inl ?_
          simp only [if_pos hversion]
          rfl
        · refine Or.inr ⟨.versionMismatch name m.version version, ?_⟩
          simp only [if_neg hversion]
          rfl
  · cases hget

/-- Whatever a searcher answers a request with is one of the outcomes listed. -/
theorem resolveWithin_supplies (s : Searcher) (depth : Nat) (name : String) (version : Version)
    (v : Vault) : s.Supplies name version v depth (s.resolveWithin depth name version v) := by
  cases depth with
  | zero => exact .exhausted
  | succ depth =>
      refine of_bind (P := s.Supplies name version v (depth + 1)) (fun u _ hget => ?_)
        fun _ _ hget => ?_
      · cases hget
        cases hfound : v.findModule? name version with
        | some id => exact .reused hfound
        | none =>
            cases hloading : v.isLoading name with
            | true => exact .cyclic (by simpa [isLoading] using hloading)
            | false =>
                refine of_bind (P := s.Supplies name version v (depth + 1))
                  (fun bytes w hanswer => ?_) fun e w hanswer => ?_
                · obtain ⟨himage, rfl⟩ := answer_eq_ok hanswer
                  have hfinds : s.Finds name version w bytes :=
                    ⟨hfound, by simpa [isLoading] using hloading, himage⟩
                  refine of_bind (P := s.Supplies name version w (depth + 1))
                    (fun id v' hload => ?_) fun e v' hload => .failed hfinds hload
                  rcases checkVersion_cases name version id v' with hcheck | ⟨cause, hcheck⟩
                  · rw [hcheck]
                    exact .loaded hfinds hload
                  · rw [hcheck]
                    exact .mismatched hfinds hload hcheck
                · obtain ⟨himage, rfl⟩ := answer_eq_error hanswer
                  exact .missing himage
      · cases hget

end Searcher

namespace LoadCall

variable {s : Searcher} {c c' : LoadCall}

/-- One load makes another one. -/
inductive Nests (s : Searcher) : LoadCall → LoadCall → Prop where
  | intro {depth : Nat} {bytes bytes' : Wire.Bytes} {v w u : Vault} {image : ModuleImage}
      {m m' : Module} {e : Image.DependencyEntry} {version : Version} :
      v.Begins bytes image m w →
      Run.Requests (s.resolveWithin (depth + 1)) m image w e version m' u →
      s.Finds e.name version u bytes' → Nests s ⟨depth + 1, bytes, v⟩ ⟨depth, bytes', u⟩

/-- A load that another one makes begins in a sound vault that keeps what the other one relies on.
-/
theorem Nests.keeps (h : Nests s c c') (hs : c.vault.Sound) :
    c'.vault.Sound ∧ c.vault.Keeps c'.vault := by
  obtain ⟨hb, hrequest, _⟩ := h
  obtain ⟨hsound, hmidway⟩ := hrequest.midway (resolveWithin_safe s _) hs hb
  exact ⟨hsound, hmidway.keeps⟩

/-- Until a nested load begins, the vault only keeps and adds. -/
theorem keeps_of_nests (h : ReflTransGen (Nests s) c c') (hs : c.vault.Sound) :
    c'.vault.Sound ∧ c.vault.Keeps c'.vault := by
  induction h with
  | refl => exact ⟨hs, .refl _⟩
  | tail _ hstep ih =>
      obtain ⟨hsound, hkeeps⟩ := hstep.keeps ih.1
      exact ⟨hsound, ih.2.trans hkeeps⟩

/-- A load succeeds and the module is the one that it added last. -/
def Completes (s : Searcher) (c : LoadCall) (m : Module) : Prop :=
  ∃ v', c.run s = .ok m.id v' ∧ v'.modules.toList.getLast? = some m

/-- Every module of a list was completed by a load that is related to the given one. -/
def Explains (s : Searcher) (related : LoadCall → Prop) (new : List Module) : Prop :=
  ∀ m ∈ new, ∃ c, related c ∧ c.Completes s m

/-- An explanation by fewer loads is one by more. -/
theorem Explains.mono {related related' : LoadCall → Prop} {new : List Module}
    (h : Explains s related new) (hrelated : ∀ c, related c → related' c) :
    Explains s related' new := by
  intro m hm
  obtain ⟨c, hc, hcompletes⟩ := h m hm
  exact ⟨c, hrelated c hc, hcompletes⟩

/-- Modules that are explained may be added to others. -/
theorem Explains.append {related : LoadCall → Prop} {new more : List Module}
    (h : Explains s related new) (h' : Explains s related more) :
    Explains s related (new ++ more) := by
  intro m hm
  rcases List.mem_append.1 hm with hm | hm
  · exact h m hm
  · exact h' m hm

/-! ## During a load -/

/-- During the load of the module `m`: what the vault has more than in the beginning belongs to `m`
or to modules that loads made by this one completed, and the dependencies so far are loaded. -/
structure Partway (s : Searcher) (c : LoadCall) (m : Module) (ds : List Dependency) (w : Vault) :
    Prop where
  orderly : w.Orderly
  spreads : ∃ new, Spreads (· = m.id.toNat) c.vault new w ∧ Explains s (TransGen (Nests s) c) new
  supplied : ∀ d ∈ ds, ∃ m' ∈ w.modules.toList, m'.id = d.module

variable {m : Module} {ds : List Dependency} {w w' : Vault}

/-- What a load does for itself leaves its progress as it is. -/
theorem Partway.private (h : c.Partway s m ds w)
    (hunowned : ∀ r owner d, c.vault.classes.entry? r = some (owner, d) → owner ≠ m.id.toNat)
    (hprivate : Private m.id w w') : c.Partway s m ds w' := by
  obtain ⟨new, hspreads, hexplains⟩ := h.spreads
  refine ⟨h.orderly.congr (by rw [hprivate.rest]) hprivate.laid,
    ⟨new, hspreads.private hunowned hprivate, hexplains⟩, ?_⟩
  have hmodules : w'.modules = w.modules := by rw [hprivate.rest]
  rw [hmodules]
  exact h.supplied

/-- Loads made by this one add their modules. -/
theorem Partway.trans (h : c.Partway s m ds w) {more : List Module} (horderly : w'.Orderly)
    (hspreads : Spreads (fun _ => False) w more w')
    (hexplains : Explains s (TransGen (Nests s) c) more) : c.Partway s m ds w' := by
  obtain ⟨new, hspreads', hexplains'⟩ := h.spreads
  refine ⟨horderly, ⟨_, hspreads'.trans hspreads, hexplains'.append hexplains⟩, fun d hd => ?_⟩
  obtain ⟨m', hm', hid⟩ := h.supplied d hd
  refine ⟨m', ?_, hid⟩
  rw [hspreads.modules]
  exact List.mem_append_left _ hm'

/-- A dependency that is loaded may be entered. -/
theorem Partway.depend (h : c.Partway s m ds w) {d : Dependency}
    (hd : ∃ m' ∈ w.modules.toList, m'.id = d.module) : c.Partway s m (ds ++ [d]) w := by
  refine ⟨h.orderly, h.spreads, fun d' hd' => ?_⟩
  rcases List.mem_append.1 hd' with hd' | hd'
  · exact h.supplied d' hd'
  · rw [List.mem_singleton.1 hd']
    exact hd

/-- What a load leaves behind: modules that loads made by it completed, its own one last if it
succeeds, and no class under the number of a module that it failed to load. -/
def Grows (s : Searcher) (c : LoadCall) : Prop :=
  Ends (c.run s)
    (fun id v' => ∃ new, Spreads (fun _ => False) c.vault new v' ∧
      Explains s (ReflTransGen (Nests s) c) new ∧ ∃ m ∈ new, m.id = id)
    fun v' => (∃ new, Spreads (fun _ => False) c.vault new v' ∧
      Explains s (TransGen (Nests s) c) new) ∧
      ∀ id tokens, c.vault.tokens.nextModule? = some (id, tokens) →
        ∀ r, v'.classes.ownerOf? r ≠ some id.toNat

/-- Whether a load succeeds or not, it spreads. -/
theorem Grows.spreads (h : c.Grows s) :
    ∃ new, Spreads (fun _ => False) c.vault new (stateAfter (c.run s)) ∧
      Explains s (ReflTransGen (Nests s) c) new := by
  unfold Grows at h
  cases hrun : c.run s with
  | ok id v' =>
      rw [hrun] at h
      obtain ⟨new, hspreads, hexplains, _⟩ := h
      exact ⟨new, hspreads, hexplains⟩
  | error e v' =>
      rw [hrun] at h
      obtain ⟨⟨new, hspreads, hexplains⟩, _⟩ := h
      exact ⟨new, hspreads, hexplains.mono fun _ => TransGen.to_reflTransGen⟩

/-- A load that this one makes. -/
theorem Partway.nest (h : c.Partway s m ds c'.vault) (hnests : Nests s c c') (hgrows : c'.Grows s)
    (hsafe : c'.vault.Safe (stateAfter (c'.run s))) :
    c.Partway s m ds (stateAfter (c'.run s)) := by
  obtain ⟨more, hspreads, hexplains⟩ := hgrows.spreads
  exact h.trans (hsafe.orderly h.orderly) hspreads
    (hexplains.mono fun _ => TransGen.head' hnests)

/-- A request of a load is served if the loads made by it do what loads do. -/
theorem Partway.serves {image : ModuleImage} {u : Vault} {e : Image.DependencyEntry}
    {version : Version} {m' : Module}
    (hnested : ∀ c', Nests s c c' → c'.vault.Sound → c'.vault.Orderly → c'.Grows s)
    (hb : c.vault.Begins c.bytes image m w)
    (hrequest : Run.Requests (s.resolveWithin c.depth) m image w e version m' u) (hs : u.Sound)
    (hu : c.Partway s m m'.dependencies u) :
    (s.resolveWithin c.depth).Serves (c.Partway s m) m' e.name version u := by
  have hsafe := resolveWithin_safe s c.depth e.name version u hs
  suffices hparts : Ends (s.resolveWithin c.depth e.name version u)
      (fun id w' => u.Safe w' → c.Partway s m (m'.dependencies ++ [⟨e.name, version, id⟩]) w')
      fun w' => u.Safe w' → c.Partway s m m'.dependencies w' from
    (hsafe.and hparts).mono (fun _ _ h => ⟨h.1.sound, h.1.keeps, h.2 h.1⟩)
      fun _ h => ⟨h.1.sound, h.1.keeps, h.2 h.1⟩
  obtain ⟨depth, bytes, v⟩ := c
  generalize hresult : s.resolveWithin depth e.name version u = result
  have hsupplies := hresult ▸ Searcher.resolveWithin_supplies s depth e.name version u
  cases hsupplies with
  | exhausted => exact fun _ => hu
  | reused hfound =>
      obtain ⟨m'', hm'', hid, _⟩ := exists_of_findModule? hfound
      exact fun _ => hu.depend ⟨m'', hm'', hid⟩
  | cyclic => exact fun _ => hu
  | missing => exact fun _ => hu
  | @loaded _ _ id w' hfinds hrun =>
      have hnests := Nests.intro hb hrequest hfinds
      have hgrows := hnested _ hnests hs hu.orderly
      have hgrown := Partway.nest hu hnests hgrows
      rw [hrun] at hgrown
      have hloaded : ∃ m'' ∈ w'.modules.toList, m''.id = id := by
        rw [Grows, hrun] at hgrows
        obtain ⟨more, hspreads, _, m'', hm'', hid⟩ := hgrows
        refine ⟨m'', ?_, hid⟩
        rw [hspreads.modules]
        exact List.mem_append_right _ hm''
      exact fun hsafe => (hgrown hsafe).depend hloaded
  | mismatched hfinds hrun =>
      have hnests := Nests.intro hb hrequest hfinds
      have hgrown := Partway.nest hu hnests (hnested _ hnests hs hu.orderly)
      rw [hrun] at hgrown
      exact hgrown
  | failed hfinds hrun =>
      have hnests := Nests.intro hb hrequest hfinds
      have hgrown := Partway.nest hu hnests (hnested _ hnests hs hu.orderly)
      rw [hrun] at hgrown
      exact hgrown

/-! ## Whole loads -/

/-- The stages of a load add modules to the vault as their dependencies are supplied. -/
theorem readModule_partway {image : ModuleImage} (hs : c.vault.Sound) (ho : c.vault.Orderly)
    (hnested : ∀ c', Nests s c c' → c'.vault.Sound → c'.vault.Orderly → c'.Grows s)
    (hb : c.vault.Begins c.bytes image m w) :
    Ends (Run.readModule (s.resolveWithin c.depth) m image w)
      (fun m' v' => Finished (c.Partway s m m'.dependencies) m' v' ∧ m'.id = m.id ∧
        m'.name = m.name)
      (Stopped (fun w => ∃ ds, c.Partway s m ds w) m.id) := by
  have hprivate : ∀ ds w w', c.Partway s m ds w → Private m.id w w' → c.Partway s m ds w' :=
    fun ds w w' h => h.private fun _ _ _ => hb.unowned hs
  have hstart : c.Partway s m m.dependencies w := by
    refine ⟨ho.congr (by rw [hb.begun]) (by rw [hb.begun]; exact fun _ _ hc _ => hc),
      ⟨[], ?_, ?_⟩, ?_⟩
    · rw [hb.begun]
      exact .start _ rfl rfl rfl rfl rfl
    · simp [Explains]
    · rw [hb.bare]
      simp
  exact readModule_spec hprivate (hb.stubbed hs hstart (hprivate _)) image
    fun e version m' u hrequest hsound hu => hu.serves hnested hb hrequest hsound

/-- No class has the number that comes next. -/
theorem unowned_next {v : Vault} (hs : v.Sound) {id : ModuleId} {tokens : TokenCounter}
    (hgrant : v.tokens.nextModule? = some (id, tokens)) (r : ClassRef) :
    v.classes.ownerOf? r ≠ some id.toNat := by
  intro howner
  obtain ⟨c, he⟩ := Arena.ownerOf?_eq_some_iff.1 howner
  have hle := (hs.entries r _ c he).2.2.2
  have hid := (nextModule?_eq_some hgrant).1
  omega

/-- A load grows the vault if the loads that it makes do. -/
theorem grows_of_nested (hs : c.vault.Sound) (ho : c.vault.Orderly)
    (hnested : ∀ c', Nests s c c' → c'.vault.Sound → c'.vault.Orderly → c'.Grows s) :
    c.Grows s := by
  have hrefused : ∀ tokens : TokenCounter,
      ∃ new, Spreads (fun _ => False) c.vault new { c.vault with tokens } ∧
        Explains s (TransGen (Nests s) c) new :=
    fun tokens => ⟨[], .start _ rfl rfl rfl rfl rfl, by simp [Explains]⟩
  have houtline : Outline (s.resolveWithin c.depth) c.bytes c.vault (c.run s) :=
    loadImage_outline _ _ _
  unfold Grows
  generalize hresult : c.run s = result at houtline
  cases houtline with
  | refused => exact ⟨hrefused _, fun _ _ hgrant => unowned_next hs hgrant⟩
  | cyclic => exact ⟨hrefused _, fun _ _ hgrant => unowned_next hs hgrant⟩
  | @completed image m m' w v' hb hread =>
      have hdone := readModule_partway hs ho hnested hb
      rw [hread] at hdone
      obtain ⟨hfinished, hid, _⟩ := hdone
      obtain ⟨new, hspreads, hexplains⟩ := hfinished.around.spreads
      rw [← hid] at hspreads
      refine ⟨new ++ [m'], (hspreads.push hfinished.alone hfinished.around.supplied).withLoading _,
        ?_, m', by simp, rfl⟩
      refine (hexplains.mono fun _ => TransGen.to_reflTransGen).append fun m'' hm'' => ?_
      rw [List.mem_singleton.1 hm'']
      exact ⟨c, .refl, _, hresult, by simp⟩
  | @abandoned image m w v' e hb hread =>
      have hdone := readModule_partway hs ho hnested hb
      rw [hread] at hdone
      obtain ⟨ds, hpartway⟩ := hdone.around
      obtain ⟨new, hspreads, hexplains⟩ := hpartway.spreads
      have harena := hdone.sound.arena
      refine ⟨⟨new, (hspreads.withLoading _).release (fun _ _ _ => hb.unowned hs) ho harena,
        hexplains⟩, fun id tokens hgrant r howner => ?_⟩
      rw [hb.granted] at hgrant
      cases hgrant
      obtain ⟨d, he⟩ := Arena.ownerOf?_eq_some_iff.1 howner
      exact ((Arena.removeOwner_spec harena m.id.toNat).1.entry?_of_kept he).1 rfl

/-- Every load grows the vault, by recursion over the loads that it makes. -/
theorem grows (s : Searcher) (c : LoadCall) (hs : c.vault.Sound) (ho : c.vault.Orderly) :
    c.Grows s := by
  obtain ⟨depth, bytes, v⟩ := c
  induction depth generalizing bytes v with
  | zero => exact grows_of_nested hs ho fun c' hnests => nomatch hnests
  | succ depth ih =>
      refine grows_of_nested hs ho fun c' hnests hs' ho' => ?_
      cases hnests with
      | intro => exact ih _ _ hs' ho'

end LoadCall

end VaultKernel
