import Mathlib.Data.List.Infix
import VaultKernel.Proofs.Native.Registry
import VaultKernel.Proofs.Vault.Steps

/-!
# What a registry remembers

Any number of vaults share a registry. Each request holds a lock of the registry, so requests come
one after another; the two halves of a resolution are requests of their own, and others may come in
between. `Served` lists the requests since the registry was new, each with the registry that it met,
newest first. `Opening` and `Finding` say what a half does for an arbitrary loader, `Remembers` what
every request leaves alone, and a module that is linked makes nothing but requests
(`linkClasses_continues`). Read `requests_remembered` first.
-/

namespace VaultKernel

namespace NativeRegistry

/-- A request to a registry. -/
inductive Request where
  | load (path : String)
  | symbol (path name : String)
  | resolve (path name : String)
  deriving DecidableEq

namespace Request

/-- The answer to a request: a library is open, or a symbol has an address. -/
def answer : Request → NativeRegistry → Except LinkError (Option UInt64)
  | .load path, r => (r.load path).1.map fun _ => none
  | .symbol path name, r => (r.symbol path name).1.map some
  | .resolve path name, r => (r.resolve path name).1.map some

/-- The registry after a request. -/
def after : Request → NativeRegistry → NativeRegistry
  | .load path, r => (r.load path).2
  | .symbol path name, r => (r.symbol path name).2
  | .resolve path name, r => (r.resolve path name).2

/-- Only an open library can be asked for a symbol. -/
def Possible : Request → NativeRegistry → Prop
  | .symbol path _, r => (r.library? path).isSome
  | _, _ => True

/-- Whether the loader is asked for the library at a path, and opens it. -/
def opens (path : String) (r : NativeRegistry) : Request → Bool
  | .load p | .resolve p _ => p = path && (r.load p).2.loads ≠ r.loads && (r.load p).1.isOk
  | .symbol _ _ => false

end Request

/-- The requests to a registry since it was new, newest first, with the registries that they met. -/
inductive Served : List (NativeRegistry × Request) → NativeRegistry → Prop where
  | new (loader : LibraryLoader) : Served [] { loader }
  | register {past : List (NativeRegistry × Request)} {r : NativeRegistry} (name : String)
      (argumentTypes : List String) (function : Builtin) :
      Served past r → Served past (r.register name argumentTypes function)
  | request {past : List (NativeRegistry × Request)} {r : NativeRegistry} (q : Request) :
      q.Possible r → Served past r → Served ((r, q) :: past) (q.after r)

variable {r r' r₁ r₂ : NativeRegistry} {q : Request} {path name : String} {address : UInt64}
  {past : List (NativeRegistry × Request)}

/-! ## The two halves -/

/-- How a request for a library ends. -/
inductive Opening (r : NativeRegistry) (path : String) :
    Except LinkError NativeLibrary × NativeRegistry → Prop where
  | known {library : NativeLibrary} : r.library? path = some library →
      Opening r path (.ok library, r)
  | opened : r.library? path = none → r.loader.openLibrary r.calls path = .ok () →
      Opening r path
        (.ok { path }, { r with loads := r.loads + 1, libraries := r.libraries ++ [{ path }] })
  | refused {reason : String} : r.library? path = none →
      r.loader.openLibrary r.calls path = .error reason →
      Opening r path (.error (.libraryLoad path reason), { r with loads := r.loads + 1 })

/-- How a request for a symbol ends. -/
inductive Finding (r : NativeRegistry) (path name : String) :
    Except LinkError UInt64 × NativeRegistry → Prop where
  | known {address : UInt64} : r.cached? path name = some address →
      Finding r path name (.ok address, r)
  | found {address : UInt64} : r.cached? path name = none →
      r.loader.findSymbol r.calls path name = .ok address →
      Finding r path name
        (.ok address, ({ r with lookups := r.lookups + 1 } : NativeRegistry).keepSymbol path name
          address)
  | missing {reason : String} : r.cached? path name = none →
      r.loader.findSymbol r.calls path name = .error reason →
      Finding r path name
        (.error (.symbolNotFound path name reason), { r with lookups := r.lookups + 1 })

/-- A request for a library is answered from what is open, or opens it, or fails. -/
theorem opening (r : NativeRegistry) (path : String) : Opening r path (r.load path) := by
  unfold load
  cases hlibrary : r.library? path with
  | some library => exact .known hlibrary
  | none =>
      dsimp only
      cases hopen : r.loader.openLibrary r.calls path with
      | ok _ => exact .opened hlibrary hopen
      | error reason => exact .refused hlibrary hopen

/-- A request for a symbol is answered from what was found, or finds it, or fails. -/
theorem finding (r : NativeRegistry) (path name : String) :
    Finding r path name (r.symbol path name) := by
  unfold symbol
  cases hcached : r.cached? path name with
  | some address => exact .known hcached
  | none =>
      dsimp only
      cases hfind : r.loader.findSymbol r.calls path name with
      | ok address => exact .found hcached hfind
      | error reason => exact .missing hcached hfind

/-- A resolution ends with its first half if that one fails, and else with its second half. -/
theorem resolve_cases (r : NativeRegistry) (path name : String) :
    (∃ e r', r.load path = (.error e, r') ∧ r.resolve path name = (.error e, r')) ∨
    ∃ library r', r.load path = (.ok library, r') ∧
      r.resolve path name = r'.symbol path name := by
  unfold resolve
  obtain ⟨answer, r'⟩ := r.load path
  cases answer with
  | error e => exact Or.inl ⟨e, r', rfl, rfl⟩
  | ok library => exact Or.inr ⟨library, r', rfl, rfl⟩

/-- A library that was asked for is open. -/
theorem isSome_library?_load {library : NativeLibrary} (h : r.load path = (.ok library, r')) :
    (r'.library? path).isSome := by
  have hopening := h ▸ opening r path
  cases hopening with
  | known hlibrary =>
      rw [hlibrary]
      rfl
  | opened hnone =>
      rw [library?_open hnone, if_pos rfl]
      rfl

/-! ## What stays -/

/-- Whatever is open stays open, and whatever was found stays with its library. -/
structure Remembers (r r' : NativeRegistry) : Prop where
  loader : r'.loader = r.loader
  paths : r.libraries.map (·.path) <+: r'.libraries.map (·.path)
  libraries : ∀ path library, r.library? path = some library →
    ∃ library', r'.library? path = some library' ∧ library.symbols <+: library'.symbols

/-- A registry remembers if nothing is done to its libraries. -/
theorem Remembers.of_libraries (hloader : r'.loader = r.loader)
    (hlibraries : r'.libraries = r.libraries) : r.Remembers r' := by
  refine ⟨hloader, by rw [hlibraries], fun path library h => ⟨library, ?_, List.prefix_refl _⟩⟩
  rw [library?, hlibraries]
  exact h

/-- A registry remembers itself. -/
theorem Remembers.refl (r : NativeRegistry) : r.Remembers r := .of_libraries rfl rfl

/-- What is remembered twice is remembered. -/
theorem Remembers.trans (h : r.Remembers r₁) (h' : r₁.Remembers r₂) : r.Remembers r₂ := by
  refine ⟨h'.loader.trans h.loader, h.paths.trans h'.paths, fun path library hlibrary => ?_⟩
  obtain ⟨library₁, hlibrary₁, hsymbols₁⟩ := h.libraries path library hlibrary
  obtain ⟨library₂, hlibrary₂, hsymbols₂⟩ := h'.libraries path library₁ hlibrary₁
  exact ⟨library₂, hlibrary₂, hsymbols₁.trans hsymbols₂⟩

/-- A cached address is one that the library has under the name. -/
theorem cached?_eq_some_iff : r.cached? path name = some address ↔
    ∃ library, r.library? path = some library ∧ library.symbols.lookup name = some address :=
  Option.bind_eq_some_iff

/-- A symbol that was found keeps its address. -/
theorem Remembers.cached? (h : r.Remembers r') (hcached : r.cached? path name = some address) :
    r'.cached? path name = some address := by
  obtain ⟨library, hlibrary, hlookup⟩ := cached?_eq_some_iff.1 hcached
  obtain ⟨library', hlibrary', more, hmore⟩ := h.libraries path library hlibrary
  refine cached?_eq_some_iff.2 ⟨library', hlibrary', ?_⟩
  rw [← hmore, List.lookup_append, hlookup]
  rfl

/-- A library that is opened comes last. -/
theorem Remembers.opened (hnone : r.library? path = none) (loads : Nat) :
    r.Remembers { r with loads, libraries := r.libraries ++ [{ path }] } := by
  refine ⟨rfl, ?_, fun query library h => ⟨library, ?_, List.prefix_refl _⟩⟩
  · rw [List.map_append]
    exact List.prefix_append _ _
  · rw [library?_open hnone, if_neg]
    · exact h
    · rintro rfl
      rw [h] at hnone
      cases hnone

/-- A symbol that is found comes last in its library. -/
theorem Remembers.keepSymbol (r : NativeRegistry) (path name : String) (address : UInt64) :
    r.Remembers (r.keepSymbol path name address) := by
  refine ⟨rfl, ?_, fun query library h => ?_⟩
  · have hpaths : (r.keepSymbol path name address).libraries.map (·.path) =
        r.libraries.map (·.path) := by
      rw [NativeRegistry.keepSymbol, List.map_map]
      refine List.map_congr_left fun l _ => ?_
      rw [Function.comp_apply]
      split <;> rfl
    rw [hpaths]
  · rw [library?_keepSymbol, h, Option.map_some]
    refine ⟨_, rfl, ?_⟩
    split
    · exact List.prefix_append _ _
    · exact List.prefix_refl _

/-- A request for a library leaves what is known in place. -/
theorem Remembers.load (r : NativeRegistry) (path : String) : r.Remembers (r.load path).2 := by
  have hopening := opening r path
  generalize r.load path = result at hopening
  cases hopening with
  | known => exact .refl r
  | opened hnone => exact .opened hnone _
  | refused => exact .of_libraries rfl rfl

/-- A request for a symbol leaves what is known in place. -/
theorem Remembers.symbol (r : NativeRegistry) (path name : String) :
    r.Remembers (r.symbol path name).2 := by
  have hfinding := finding r path name
  generalize r.symbol path name = result at hfinding
  cases hfinding with
  | known => exact .refl r
  | found =>
      have hasked : r.Remembers { r with lookups := r.lookups + 1 } := .of_libraries rfl rfl
      exact hasked.trans (.keepSymbol _ path name _)
  | missing => exact .of_libraries rfl rfl

/-- No request makes the registry forget. -/
theorem Remembers.after (q : Request) (r : NativeRegistry) : r.Remembers (q.after r) := by
  cases q with
  | load path => exact .load r path
  | symbol path name => exact .symbol r path name
  | resolve path name =>
      have hload := Remembers.load r path
      show r.Remembers (r.resolve path name).2
      rcases resolve_cases r path name with ⟨e, r', h, hresolve⟩ | ⟨library, r', h, hresolve⟩
      · rw [hresolve]
        rwa [h] at hload
      · rw [hresolve]
        rw [h] at hload
        exact hload.trans (.symbol r' path name)

/-- What a registry knew when it met a request it still knows. -/
theorem Served.remembers (h : Served past r) :
    ∀ x ∈ past, x.1.Remembers r ∧ (x.2.after x.1).Remembers r := by
  induction h with
  | new => simp
  | register name argumentTypes function _ ih =>
      intro x hx
      obtain ⟨hbefore, hafter⟩ := ih x hx
      exact ⟨hbefore.trans (.of_libraries rfl rfl), hafter.trans (.of_libraries rfl rfl)⟩
  | @request past r q _ _ ih =>
      intro x hx
      rcases List.mem_cons.1 hx with rfl | hx
      · exact ⟨.after q r, .refl _⟩
      · obtain ⟨hbefore, hafter⟩ := ih x hx
        exact ⟨hbefore.trans (.after q r), hafter.trans (.after q r)⟩

/-- Each request that was served could be made. -/
theorem Served.possible (h : Served past r) : ∀ x ∈ past, x.2.Possible x.1 := by
  induction h with
  | new => simp
  | register _ _ _ _ ih => exact ih
  | request q hpossible _ ih => exact List.forall_mem_cons.2 ⟨hpossible, ih⟩

/-! ## Opening once -/

/-- A request for a symbol opens no library and closes none. -/
theorem isSome_library?_symbol (r : NativeRegistry) (path name query : String) :
    ((r.symbol path name).2.library? query).isSome = (r.library? query).isSome := by
  have hfinding := finding r path name
  generalize r.symbol path name = result at hfinding
  cases hfinding with
  | known => rfl
  | found =>
      rw [library?_keepSymbol, Option.isSome_map]
      rfl
  | missing => rfl

/-- A library is opened that was not open, or the same libraries are open as before. -/
theorem opens_cases (path : String) (q : Request) (r : NativeRegistry) :
    (q.opens path r = true ∧ r.library? path = none ∧ ((q.after r).library? path).isSome) ∨
      (q.opens path r = false ∧
        ((q.after r).library? path).isSome = (r.library? path).isSome) := by
  have hload : ∀ p, (Request.opens path r (.load p) = true ∧ r.library? path = none ∧
      ((r.load p).2.library? path).isSome) ∨ (Request.opens path r (.load p) = false ∧
        ((r.load p).2.library? path).isSome = (r.library? path).isSome) := by
    intro p
    rw [Request.opens]
    have hopening := opening r p
    generalize r.load p = result at hopening
    cases hopening with
    | known => exact Or.inr ⟨by simp, rfl⟩
    | refused => exact Or.inr ⟨by simp [Except.isOk, Except.toBool], rfl⟩
    | opened hnone =>
        rw [library?_open hnone]
        by_cases hp : path = p
        · subst hp
          exact Or.inl ⟨by simp [Except.isOk, Except.toBool], hnone, by rw [if_pos rfl]; rfl⟩
        · exact Or.inr ⟨by simp [Ne.symm hp], by rw [if_neg hp]⟩
  cases q with
  | load p => exact hload p
  | symbol p name => exact Or.inr ⟨rfl, isSome_library?_symbol r p name path⟩
  | resolve p name =>
      -- the second half opens nothing
      have hafter : ((r.resolve p name).2.library? path).isSome =
          ((r.load p).2.library? path).isSome := by
        rcases resolve_cases r p name with ⟨e, r', h, hresolve⟩ | ⟨library, r', h, hresolve⟩
        · rw [hresolve, h]
        · rw [hresolve, h, isSome_library?_symbol]
      show (Request.opens path r (.load p) = true ∧ _ ∧
        ((r.resolve p name).2.library? path).isSome) ∨
        (Request.opens path r (.load p) = false ∧ ((r.resolve p name).2.library? path).isSome = _)
      rw [hafter]
      exact hload p

/-- The libraries that are open are those that the loader opened, each of them once. -/
theorem Served.countP_opens (h : Served past r) (path : String) :
    past.countP (fun x => x.2.opens path x.1) = if (r.library? path).isSome then 1 else 0 := by
  induction h with
  | new => rfl
  | register name argumentTypes function _ ih => exact ih
  | @request past r q _ _ ih =>
      rw [List.countP_cons, ih]
      rcases opens_cases path q r with ⟨hopens, hnone, hopen⟩ | ⟨hopens, hsame⟩
      · rw [hnone, hopens, hopen]
        rfl
      · rw [hopens, hsame]
        rfl

/-! ## Successes and failures -/

/-- A registry that knows a symbol answers without asking the loader. -/
theorem answers_of_cached? (h : r.cached? path name = some address) :
    (∃ library, r.load path = (.ok library, r)) ∧ r.symbol path name = (.ok address, r) ∧
      r.resolve path name = (.ok address, r) := by
  obtain ⟨library, hlibrary, _⟩ := cached?_eq_some_iff.1 h
  have hsymbol : r.symbol path name = (.ok address, r) := by rw [symbol, h]
  refine ⟨⟨library, load_of_open hlibrary⟩, hsymbol, ?_⟩
  rw [resolve, load_of_open hlibrary]
  exact hsymbol

/-- A symbol that was found is cached. -/
theorem cached?_symbol (hopen : (r.library? path).isSome)
    (h : (r.symbol path name).1 = .ok address) :
    (r.symbol path name).2.cached? path name = some address := by
  have hfinding := finding r path name
  generalize r.symbol path name = result at hfinding h
  cases hfinding with
  | known hcached =>
      cases h
      exact hcached
  | found hnone =>
      cases h
      obtain ⟨library, hlibrary⟩ := Option.isSome_iff_exists.1 hopen
      have hlibrary' : ({ r with lookups := r.lookups + 1 } : NativeRegistry).library? path =
        some library := hlibrary
      dsimp only
      rw [cached?_keepSymbol hlibrary', if_pos rfl]
      show (r.cached? path name).or _ = _
      rw [hnone]
      rfl
  | missing => cases h

/-- A symbol is kept once it was found. -/
theorem cached?_after (hpossible : q.Possible r)
    (hq : q = .symbol path name ∨ q = .resolve path name)
    (h : q.answer r = .ok (some address)) : (q.after r).cached? path name = some address := by
  rcases hq with rfl | rfl
  · obtain ⟨_, hanswer, heq⟩ := map_eq_ok.1 h
    cases heq
    exact cached?_symbol hpossible hanswer
  · obtain ⟨_, hanswer, heq⟩ := map_eq_ok.1 h
    cases heq
    show (r.resolve path name).2.cached? path name = _
    rcases resolve_cases r path name with ⟨e, r', _, hresolve⟩ | ⟨library, r', hload, hresolve⟩
    · rw [hresolve] at hanswer
      cases hanswer
    · rw [hresolve] at hanswer ⊢
      exact cached?_symbol (isSome_library?_load hload) hanswer

/-- A request fails with what the loader says while it is served, and nothing is kept of the
failure; a library that was opened for it stays open. -/
inductive Fails : NativeRegistry → Request → LinkError → NativeRegistry → Prop where
  | unopened {r : NativeRegistry} {path reason : String} :
      r.loader.openLibrary r.calls path = .error reason →
      Fails r (.load path) (.libraryLoad path reason) { r with loads := r.loads + 1 }
  | unfound {r : NativeRegistry} {path name reason : String} :
      r.loader.findSymbol r.calls path name = .error reason →
      Fails r (.symbol path name) (.symbolNotFound path name reason)
        { r with lookups := r.lookups + 1 }
  | firstHalf {r r' : NativeRegistry} {path name : String} {e : LinkError} :
      Fails r (.load path) e r' → Fails r (.resolve path name) e r'
  | secondHalf {r r₁ r₂ : NativeRegistry} {path name : String} {library : NativeLibrary}
      {e : LinkError} : r.load path = (.ok library, r₁) → Fails r₁ (.symbol path name) e r₂ →
      Fails r (.resolve path name) e r₂

/-- A failed request for a library fails with what the loader says of it. -/
theorem fails_load {e : LinkError} (h : r.load path = (.error e, r')) :
    Fails r (.load path) e r' := by
  have hopening := h ▸ opening r path
  cases hopening with
  | refused _ hrefused => exact .unopened hrefused

/-- A failed request for a symbol fails with what the loader says of it. -/
theorem fails_symbol {e : LinkError} (h : (r.symbol path name).1 = .error e) :
    Fails r (.symbol path name) e (r.symbol path name).2 := by
  have hfinding := finding r path name
  generalize r.symbol path name = result at hfinding h
  cases hfinding with
  | known => cases h
  | found => cases h
  | missing _ hmissing =>
      cases h
      exact .unfound hmissing

/-- Every failure of a request is one that the loader reported while it was served. -/
theorem fails_of_answer {e : LinkError} (h : q.answer r = .error e) : Fails r q e (q.after r) := by
  cases q with
  | load path =>
      have hanswer : (r.load path).1 = .error e := map_eq_error.1 h
      exact fails_load (Prod.ext hanswer rfl)
  | symbol path name => exact fails_symbol (map_eq_error.1 h)
  | resolve path name =>
      have hanswer : (r.resolve path name).1 = .error e := map_eq_error.1 h
      show Fails r _ e (r.resolve path name).2
      rcases resolve_cases r path name with
        ⟨e', r', hload, hresolve⟩ | ⟨library, r', hload, hresolve⟩
      · rw [hresolve] at hanswer ⊢
        cases hanswer
        exact .firstHalf (fails_load hload)
      · rw [hresolve] at hanswer ⊢
        exact .secondHalf hload (fails_symbol hanswer)

end NativeRegistry

/-! ## Without caches -/

/-- The answer to a request if nothing is kept and the loader is asked each time, when it was called
so many times before. -/
def LibraryLoader.answer (l : LibraryLoader) (calls : Nat) :
    NativeRegistry.Request → Except LinkError (Option UInt64)
  | .load path => do
    (l.openLibrary calls path).mapError (.libraryLoad path)
    return none
  | .symbol path name => do
    return some (← (l.findSymbol calls path name).mapError (.symbolNotFound path name))
  | .resolve path name => do
    (l.openLibrary calls path).mapError (.libraryLoad path)
    return some (← (l.findSymbol (calls + 1) path name).mapError (.symbolNotFound path name))

namespace NativeRegistry

variable {r r' : NativeRegistry} {q : Request} {path name : String}
  {past : List (NativeRegistry × Request)}

/-- What the registry keeps is what its steady loader says whenever it is asked. -/
structure Truthful (r : NativeRegistry) : Prop where
  steady : r.loader.Steady
  opened : ∀ path, (r.library? path).isSome → r.loader.openLibrary 0 path = .ok ()
  found : ∀ path name address, r.cached? path name = some address →
    r.loader.findSymbol 0 path name = .ok address

/-- Whether a registry is truthful depends on its loader and its libraries only. -/
theorem Truthful.of_libraries (h : r.Truthful) (hloader : r'.loader = r.loader)
    (hlibraries : r'.libraries = r.libraries) : r'.Truthful := by
  have hlibrary : r'.library? = r.library? := by
    funext path
    rw [library?, library?, hlibraries]
  have hcached : r'.cached? = r.cached? := by
    funext path name
    rw [NativeRegistry.cached?, NativeRegistry.cached?, hlibrary]
  exact ⟨hloader ▸ h.steady, hlibrary ▸ hloader ▸ h.opened, hcached ▸ hloader ▸ h.found⟩

/-- A truthful registry says of a library what the loader says, and stays truthful. -/
theorem Truthful.load (h : r.Truthful) (path : String) :
    (r.load path).2.Truthful ∧
      (r.load path).1.map (fun _ => none) = r.loader.answer 0 (.load path) := by
  have hopening := opening r path
  generalize r.load path = result at hopening
  rw [LibraryLoader.answer]
  cases hopening with
  | known hlibrary =>
      rw [h.opened path (by rw [hlibrary]; rfl)]
      exact ⟨h, rfl⟩
  | refused _ hrefused =>
      rw [h.steady.opens] at hrefused
      rw [hrefused]
      exact ⟨h.of_libraries rfl rfl, rfl⟩
  | opened hnone hopen =>
      rw [h.steady.opens] at hopen
      rw [hopen]
      refine ⟨⟨h.steady, fun query hquery => ?_, fun query name address hcached => ?_⟩, rfl⟩
      · rw [library?_open hnone] at hquery
        split at hquery
        · next hsame =>
            subst hsame
            exact hopen
        · exact h.opened query hquery
      · obtain ⟨library, hlibrary, hlookup⟩ := cached?_eq_some_iff.1 hcached
        rw [library?_open hnone] at hlibrary
        split at hlibrary
        · -- nothing was found yet in the library that was opened
          cases hlibrary
          cases hlookup
        · exact h.found query name address (cached?_eq_some_iff.2 ⟨library, hlibrary, hlookup⟩)

/-- Keeping an address that the loader gives keeps a registry truthful. -/
theorem Truthful.keepSymbol (h : r.Truthful) {address : UInt64}
    (hopen : (r.library? path).isSome) (hfound : r.loader.findSymbol 0 path name = .ok address) :
    (r.keepSymbol path name address).Truthful := by
  obtain ⟨library, hlibrary⟩ := Option.isSome_iff_exists.1 hopen
  refine ⟨h.steady, fun query hquery => ?_, fun query symbol found hcached => ?_⟩
  · rw [library?_keepSymbol, Option.isSome_map] at hquery
    exact h.opened query hquery
  · by_cases hquery : query = path
    · subst hquery
      rw [cached?_keepSymbol hlibrary, Option.or_eq_some_iff] at hcached
      rcases hcached with hcached | ⟨_, hnew⟩
      · exact h.found query symbol found hcached
      · split at hnew
        · next hsame =>
            cases hnew
            rw [hsame]
            exact hfound
        · cases hnew
    · rw [cached?, library?_keepSymbol_of_ne hquery] at hcached
      exact h.found query symbol found hcached

/-- A truthful registry says of a symbol what the loader says, and stays truthful. -/
theorem Truthful.symbol (h : r.Truthful) (hopen : (r.library? path).isSome) (name : String) :
    (r.symbol path name).2.Truthful ∧
      (r.symbol path name).1.map some = r.loader.answer 0 (.symbol path name) := by
  have hfinding := finding r path name
  generalize r.symbol path name = result at hfinding
  rw [LibraryLoader.answer]
  cases hfinding with
  | known hcached =>
      rw [h.found path name _ hcached]
      exact ⟨h, rfl⟩
  | found _ hfound =>
      rw [h.steady.finds] at hfound
      rw [hfound]
      have hasked : ({ r with lookups := r.lookups + 1 } : NativeRegistry).Truthful :=
        h.of_libraries rfl rfl
      exact ⟨hasked.keepSymbol hopen hfound, rfl⟩
  | missing _ hmissing =>
      rw [h.steady.finds] at hmissing
      rw [hmissing]
      exact ⟨h.of_libraries rfl rfl, rfl⟩

/-- A steady loader says the same whenever it is asked. -/
theorem answer_steady (hsteady : r.loader.Steady) (calls : Nat) (q : Request) :
    r.loader.answer calls q = r.loader.answer 0 q := by
  cases q with
  | load path => rw [LibraryLoader.answer, LibraryLoader.answer, hsteady.opens]
  | symbol path name => rw [LibraryLoader.answer, LibraryLoader.answer, hsteady.finds]
  | resolve path name =>
      rw [LibraryLoader.answer, LibraryLoader.answer, hsteady.opens, hsteady.finds,
        hsteady.finds (0 + 1)]

/-- A truthful registry resolves a symbol as the loader does, and stays truthful. -/
theorem Truthful.resolve (h : r.Truthful) (path name : String) :
    (r.resolve path name).2.Truthful ∧
      (r.resolve path name).1.map some = r.loader.answer 0 (.resolve path name) := by
  obtain ⟨hafter, hanswer⟩ := h.load path
  have hloader := (Remembers.load r path).loader
  rw [LibraryLoader.answer.eq_def] at hanswer ⊢
  dsimp only at hanswer ⊢
  rcases resolve_cases r path name with ⟨e, r', hload, hresolve⟩ | ⟨library, r', hload, hresolve⟩
  · rw [hload] at hafter hanswer
    rw [hresolve]
    refine ⟨hafter, ?_⟩
    cases hopen : r.loader.openLibrary 0 path with
    | ok _ =>
        rw [hopen] at hanswer
        cases hanswer
    | error reason =>
        rw [hopen] at hanswer
        cases hanswer
        rfl
  · rw [hload] at hafter hanswer hloader
    rw [hresolve]
    obtain ⟨hafter', hanswer'⟩ := hafter.symbol (isSome_library?_load hload) name
    refine ⟨hafter', hanswer'.trans ?_⟩
    rw [LibraryLoader.answer, hloader, h.steady.finds (0 + 1)]
    cases hopen : r.loader.openLibrary 0 path with
    | ok _ => rfl
    | error reason =>
        rw [hopen] at hanswer
        cases hanswer

/-- A truthful registry answers each request as the loader does, and stays truthful. -/
theorem Truthful.request (h : r.Truthful) (hpossible : q.Possible r) :
    (q.after r).Truthful ∧ q.answer r = r.loader.answer 0 q := by
  cases q with
  | load path => exact h.load path
  | symbol path name => exact h.symbol hpossible name
  | resolve path name => exact h.resolve path name

/-- With a steady loader a registry is truthful, and so was each of its answers. -/
theorem Served.truthful (h : Served past r) (hsteady : r.loader.Steady) :
    r.Truthful ∧ ∀ x ∈ past, x.2.answer x.1 = r.loader.answer 0 x.2 := by
  induction h with
  | new => exact ⟨⟨hsteady, by simp [library?], by simp [cached?, library?]⟩, by simp⟩
  | register name argumentTypes function _ ih =>
      obtain ⟨htruthful, hanswers⟩ := ih hsteady
      exact ⟨htruthful.of_libraries rfl rfl, hanswers⟩
  | @request past r q hpossible _ ih =>
      have hloader := (Remembers.after q r).loader
      obtain ⟨htruthful, hanswers⟩ := ih (hloader ▸ hsteady)
      obtain ⟨hafter, hanswer⟩ := htruthful.request hpossible
      refine ⟨hafter, List.forall_mem_cons.2 ⟨?_, fun x hx => ?_⟩⟩
      · rw [hloader]
        exact hanswer
      · rw [hloader]
        exact hanswers x hx

/-! ## Linking -/

/-- More requests have been made of a registry, all of them for symbols by their libraries. -/
def Continues (past : List (NativeRegistry × Request)) (r : NativeRegistry) : Prop :=
  ∃ more, Served (more ++ past) r ∧ ∀ x ∈ more, ∃ path name, x.2 = .resolve path name

/-- A registry continues what was served. -/
theorem Served.continues (h : Served past r) : Continues past r := ⟨[], h, by simp⟩

/-- Resolving a symbol continues what was served. -/
theorem Continues.resolve (h : Continues past r) (path name : String) :
    Continues past (r.resolve path name).2 := by
  obtain ⟨more, hserved, hmore⟩ := h
  exact ⟨(r, .resolve path name) :: more, hserved.request (.resolve path name) trivial,
    List.forall_mem_cons.2 ⟨⟨path, name, rfl⟩, hmore⟩⟩

end NativeRegistry

open NativeRegistry

variable {past : List (NativeRegistry × Request)} {r : NativeRegistry}

/-- Binding a method makes requests to the registry and nothing else. -/
theorem Method.bind_continues (h : Continues past r) (m : Method) (place : MethodRef) :
    Ends (m.bind place r) (fun _ => Continues past) (Continues past) := by
  unfold Method.bind
  cases m.nativeTarget with
  | error cause => exact h
  | ok target =>
      obtain ⟨library, symbol⟩ := target
      dsimp only
      split
      · cases r.builtin? (m.builtinKey symbol) with
        | some function => exact h
        | none => exact h
      · have hasked := h.resolve library symbol
        generalize r.resolve library symbol = result at hasked
        obtain ⟨answer, r'⟩ := result
        cases answer with
        | ok address => exact hasked
        | error e => exact hasked

/-- Linking a method makes requests to the registry and nothing else. -/
theorem Method.link_continues (h : Continues past r) (m : Method) (place : MethodRef) :
    Ends (m.link place r) (fun _ => Continues past) (Continues past) := by
  unfold Method.link
  split
  · exact (Method.bind_continues h m place).bind fun _ _ h' => h'
  · exact h

/-- Linking the methods of a class makes requests to the registry and nothing else. -/
theorem linkMethods_continues (h : Continues past r) (owner : ClassRef) (index : Nat)
    (ms : List Method) :
    Ends (linkMethods owner index ms r) (fun _ => Continues past) (Continues past) := by
  induction ms generalizing index r with
  | nil => exact h
  | cons m ms ih =>
      exact (Method.link_continues h m ⟨owner, index⟩).bind fun _ _ h' =>
        (ih h' (index + 1)).bind fun _ _ h'' => h''

/-- Linking classes makes requests to the registry and nothing else. -/
theorem Classes.linked_continues (h : Continues past r) (classes : Classes)
    (refs : List ClassRef) :
    Ends (classes.linked refs r) (fun _ => Continues past) (Continues past) := by
  induction refs generalizing r with
  | nil => exact h
  | cons ref refs ih =>
      unfold Classes.linked
      cases classes.get? ref with
      | none => exact ih h
      | some c =>
          exact (linkMethods_continues h ref 0 c.methods).bind fun _ _ h' =>
            (ih h').bind fun _ _ h'' => h''

/-- A vault that links a module makes requests of its registry and changes it in no other way. -/
theorem linkClasses_continues {v : Vault} (h : Continues past v.registry) (m : Module) :
    Continues past (stateAfter (Run.linkClasses m v)).registry := by
  have hlink : Ends (Run.linkClasses m v) (fun _ w => Continues past w.registry)
      fun w => Continues past w.registry := by
    unfold Run.linkClasses
    refine Ends.get (Ends.bind (R := fun _ w => Continues past w.registry) ?_ fun linked w hw => ?_)
    · exact Ends.onRegistry (Classes.linked_continues h v.classes m.ownClasses)
    · -- the classes get their methods, and the registry stays as it is
      refine Ends.forM (fun _ (u : Vault) => Continues past u.registry) [] (fun _ _ u _ hu => ?_) hw
      exact hu
  exact ends_iff.1 hlink

namespace NativeRegistry

/-- However the answers of its loader change, a registry has each library opened at most once, gives
the address that it found for a symbol ever after without asking again, and forgets nothing but
failures, which are what the loader says at the moment. If the loader is steady, each answer is the
one that it would give itself. A vault that links a module just makes more requests. -/
theorem requests_remembered (h : Served past r) :
    (∀ path, past.countP (fun x => x.2.opens path x.1) ≤ 1) ∧
    (∀ r₁ q path name address, (r₁, q) ∈ past → (q = .symbol path name ∨ q = .resolve path name) →
      q.answer r₁ = .ok (some address) → (∃ library, r.load path = (.ok library, r)) ∧
        r.symbol path name = (.ok address, r) ∧ r.resolve path name = (.ok address, r)) ∧
    (∀ r₁ q e, (r₁, q) ∈ past → q.answer r₁ = .error e → Fails r₁ q e (q.after r₁)) ∧
    (∀ r₁ q, (r₁, q) ∈ past → r₁.Remembers r) ∧
    (r.loader.Steady → ∀ r₁ q calls, (r₁, q) ∈ past →
      q.answer r₁ = r.loader.answer calls q) ∧
    ∀ (v : Vault) (m : Module), v.registry = r →
      Continues past (stateAfter (Run.linkClasses m v)).registry := by
  refine ⟨fun path => ?_, fun r₁ q path name address hmem hq hanswer => ?_,
    fun r₁ q e _ hanswer => fails_of_answer hanswer, fun r₁ q hmem => (h.remembers _ hmem).1,
    fun hsteady r₁ q calls hmem => ?_, fun v m hv => ?_⟩
  · rw [h.countP_opens path]
    split <;> decide
  · have hcached := cached?_after (h.possible _ hmem) hq hanswer
    exact answers_of_cached? ((h.remembers _ hmem).2.cached? hcached)
  · rw [answer_steady hsteady]
    exact (h.truthful hsteady).2 _ hmem
  · subst hv
    exact linkClasses_continues h.continues m

/-- A loader that is busy at first and again when it is asked for the symbol: the library is opened
by the second request, the symbol is found by the fourth one, and then the loader is not asked any
more. -/
theorem requests_remembered_busy : ∃ (past : List (NativeRegistry × Request)) (r : NativeRegistry),
    Served past r ∧ past.map (·.2) = [.resolve "host" "now", .symbol "host" "now", .load "host",
      .resolve "host" "now"] ∧ r.loads = 2 ∧ r.lookups = 2 ∧
    past.countP (fun x => x.2.opens "host" x.1) ≤ 1 ∧
    r.resolve "host" "now" = (.ok 3, r) := by
  let loader : LibraryLoader :=
    { openLibrary := fun calls _ => if calls = 0 then .error "busy" else .ok ()
      findSymbol := fun calls _ _ => if calls = 2 then .error "busy" else .ok 3 }
  have hfirst := (Served.new loader).request (.resolve "host" "now") trivial
  have hopened := hfirst.request (.load "host") trivial
  have hmissing := hopened.request (.symbol "host" "now") (by rfl)
  have hfound := hmissing.request (.resolve "host" "now") trivial
  obtain ⟨honce, hagain, _⟩ := requests_remembered hfound
  have hanswers := hagain _ _ "host" "now" 3 List.mem_cons_self (Or.inr rfl) rfl
  exact ⟨_, _, hfound, rfl, rfl, rfl, honce "host", hanswers.2.2⟩

end NativeRegistry

end VaultKernel
