import VaultKernel.Native.Registry

/-!
# What a registry answers

A registry asks its loader only for what it does not know yet, and keeps every success. If the
loader answers a question in the same way whenever it is asked, then it does not matter what was
asked before: `resolve_spec` says what the answer is, and that the registry gives the same ones
afterwards.
-/

namespace VaultKernel

/-- A loader whose answers depend on nothing but the path and the symbol. -/
structure LibraryLoader.Steady (l : LibraryLoader) : Prop where
  opens : ∀ calls path, l.openLibrary calls path = l.openLibrary 0 path
  finds : ∀ calls path name, l.findSymbol calls path name = l.findSymbol 0 path name

namespace NativeRegistry

variable {r r' r₁ r₂ : NativeRegistry} {path name : String}

/-- Whether a library is open or can be opened. -/
def opened (r : NativeRegistry) (path : String) : Except LinkError Unit :=
  if (r.library? path).isSome then .ok ()
  else (r.loader.openLibrary 0 path).mapError (.libraryLoad path)

/-- What the loader says about a symbol. -/
def found (r : NativeRegistry) (path name : String) : Except LinkError UInt64 :=
  (r.loader.findSymbol 0 path name).mapError (.symbolNotFound path name)

/-- The answer to a question; what was found before counts first. -/
def answer (r : NativeRegistry) (path name : String) : Except LinkError UInt64 :=
  match r.cached? path name with
  | some address => .ok address
  | none => r.opened path >>= fun _ => r.found path name

/-- An answer depends on the loader, on whether the library is open and on what was found. -/
theorem answer_congr (hloader : r'.loader = r.loader)
    (hlibrary : (r'.library? path).isSome = (r.library? path).isSome)
    (hcached : r'.cached? path name = r.cached? path name) :
    r'.answer path name = r.answer path name := by
  rw [answer, answer, hcached, opened, opened, hlibrary, found, found, hloader]

/-- Nothing is cached for a library that is not open. -/
theorem cached?_of_library?_eq_none (h : r.library? path = none) : r.cached? path name = none := by
  rw [cached?, h]
  rfl

/-! ## Opening libraries -/

/-- An open library is not opened again. -/
theorem load_of_open {library : NativeLibrary} (h : r.library? path = some library) :
    r.load path = (.ok library, r) := by
  rw [load, h]

/-- A library that is opened has no symbols yet. -/
theorem library?_open {loads : Nat} (hnone : r.library? path = none) (query : String) :
    ({ r with loads, libraries := r.libraries ++ [{ path }] } : NativeRegistry).library? query =
      if query = path then some { path } else r.library? query := by
  rw [library?, List.find?_append]
  by_cases hquery : query = path
  · rw [if_pos hquery, hquery, show r.libraries.find? (·.path = path) = none from hnone]
    simp
  · rw [if_neg hquery, library?]
    simp [Ne.symm hquery]

/-- Opening a library fails as before, or the library is open and answers are the same. -/
theorem load_spec (hsteady : r.loader.Steady) (path : String) :
    (∃ reason r', r.load path = (.error (.libraryLoad path reason), r') ∧
      r.opened path = .error (.libraryLoad path reason) ∧ r'.loader = r.loader ∧
      r'.builtins = r.builtins ∧ r'.libraries = r.libraries) ∨
    ∃ library r', r.load path = (.ok library, r') ∧ r.opened path = .ok () ∧
      r'.loader = r.loader ∧ r'.builtins = r.builtins ∧ (r'.library? path).isSome ∧
      r'.cached? path = r.cached? path ∧
        ∀ query, query ≠ path → r'.library? query = r.library? query := by
  cases hlibrary : r.library? path with
  | some library =>
      refine Or.inr ⟨library, r, load_of_open hlibrary, ?_, rfl, rfl, ?_, rfl, fun _ _ => rfl⟩
      · rw [opened, hlibrary]
        rfl
      · rw [hlibrary]
        rfl
  | none =>
      have hopened :
          r.opened path = (r.loader.openLibrary 0 path).mapError (.libraryLoad path) := by
        rw [opened, hlibrary]
        rfl
      rw [load, hlibrary]
      dsimp only
      rw [hsteady.opens, hopened]
      cases r.loader.openLibrary 0 path with
      | error reason => exact Or.inl ⟨reason, _, rfl, rfl, rfl, rfl, rfl⟩
      | ok _ =>
          refine Or.inr ⟨{ path }, _, rfl, rfl, rfl, rfl, ?_, ?_, fun query hquery => ?_⟩
          · rw [library?_open hlibrary, if_pos rfl]
            rfl
          · funext name
            rw [cached?_of_library?_eq_none hlibrary, cached?, library?_open hlibrary, if_pos rfl]
            rfl
          · rw [library?_open hlibrary, if_neg hquery]

/-! ## Finding symbols -/

/-- Keeping a symbol adds it to its library and to no other. -/
theorem library?_keepSymbol (r : NativeRegistry) (path name : String) (address : UInt64)
    (query : String) :
    (r.keepSymbol path name address).library? query =
      (r.library? query).map fun l =>
        if l.path = path then { l with symbols := l.symbols ++ [(name, address)] } else l := by
  rw [library?, keepSymbol, List.find?_map, library?]
  congr 1
  congr 1
  funext l
  simp only [Function.comp_apply]
  split <;> rfl

/-- A library is found under its path. -/
theorem path_of_library? {library : NativeLibrary} (h : r.library? path = some library) :
    library.path = path := by
  simpa using List.find?_some h

/-- What is cached for a library after a symbol was kept. -/
theorem cached?_keepSymbol {library : NativeLibrary} (h : r.library? path = some library)
    (address : UInt64) (query : String) :
    (r.keepSymbol path name address).cached? path query =
      (r.cached? path query).or (if query = name then some address else none) := by
  rw [cached?, library?_keepSymbol, h, cached?, h, Option.map_some, if_pos (path_of_library? h)]
  show (library.symbols ++ [(name, address)]).lookup query = (library.symbols.lookup query).or _
  rw [List.lookup_append]
  by_cases hquery : query = name
  · simp [hquery]
  · have hne : (query == name) = false := by simpa using hquery
    simp [hquery, List.lookup_cons, hne]

/-- Keeping a symbol leaves the other libraries alone. -/
theorem library?_keepSymbol_of_ne {query : String} (h : query ≠ path) (address : UInt64) :
    (r.keepSymbol path name address).library? query = r.library? query := by
  rw [library?_keepSymbol]
  cases hlibrary : r.library? query with
  | none => rfl
  | some library =>
      rw [Option.map_some, if_neg]
      rw [path_of_library? hlibrary]
      exact h

/-- A question about an open library is answered from the cache, or by the loader. -/
theorem answer_of_opened (h : r.opened path = .ok ()) (name : String) :
    r.answer path name = (r.cached? path name).elim (r.found path name) .ok := by
  rw [answer, h]
  cases r.cached? path name <;> rfl

/-- A question about a library that cannot be opened fails as opening does. -/
theorem answer_of_opened_eq_error {e : LinkError} (h : r.opened path = .error e) (name : String) :
    r.answer path name = .error e := by
  have hnone : r.library? path = none := by
    cases hlibrary : r.library? path with
    | none => rfl
    | some library =>
        rw [opened, hlibrary] at h
        cases h
  rw [answer, cached?_of_library?_eq_none hnone, h]
  rfl

/-! ## Answers -/

/-- The same registry, of which different questions may have been asked. -/
structure Alike (r r' : NativeRegistry) : Prop where
  loader : r'.loader = r.loader
  builtins : r'.builtins = r.builtins
  answers : ∀ path name, r'.answer path name = r.answer path name

theorem Alike.refl (r : NativeRegistry) : r.Alike r := ⟨rfl, rfl, fun _ _ => rfl⟩

theorem Alike.symm (h : r.Alike r') : r'.Alike r :=
  ⟨h.loader.symm, h.builtins.symm, fun path name => (h.answers path name).symm⟩

/-- Registries that are alike a third one are alike. -/
theorem Alike.trans (h : r.Alike r₁) (h' : r₁.Alike r₂) : r.Alike r₂ :=
  ⟨h'.loader.trans h.loader, h'.builtins.trans h.builtins, fun path name =>
    (h'.answers path name).trans (h.answers path name)⟩

/-- The libraries are the same. -/
theorem Alike.of_libraries (hloader : r'.loader = r.loader) (hbuiltins : r'.builtins = r.builtins)
    (hlibraries : r'.libraries = r.libraries) : r.Alike r' := by
  have hlibrary : ∀ path, r'.library? path = r.library? path := fun path => by
    rw [library?, library?, hlibraries]
  refine ⟨hloader, hbuiltins, fun path name => answer_congr hloader ?_ ?_⟩
  · rw [hlibrary]
  · rw [cached?, cached?, hlibrary]

/-- A library is open that could be opened; all others are as they were. -/
theorem Alike.of_opened (hloader : r'.loader = r.loader) (hbuiltins : r'.builtins = r.builtins)
    (hopened : r.opened path = .ok ()) (hopen : (r'.library? path).isSome)
    (hsame : ∀ name, (r'.cached? path name).elim (r.found path name) .ok = r.answer path name)
    (hothers : ∀ query, query ≠ path → r'.library? query = r.library? query) : r.Alike r' := by
  refine ⟨hloader, hbuiltins, fun query name => ?_⟩
  by_cases hquery : query = path
  · subst hquery
    have hopened' : r'.opened query = .ok () := by rw [opened, if_pos hopen]
    rw [answer_of_opened hopened', ← hsame, found, found, hloader]
  · refine answer_congr hloader ?_ ?_
    · rw [hothers query hquery]
    · rw [cached?, cached?, hothers query hquery]

/-- A symbol of an open library. -/
theorem symbol_spec (hsteady : r.loader.Steady) (hopen : (r.library? path).isSome) (name : String) :
    (r.symbol path name).1 = r.answer path name ∧ r.Alike (r.symbol path name).2 := by
  have hopened : r.opened path = .ok () := by rw [opened, if_pos hopen]
  rw [answer_of_opened hopened, symbol]
  cases hcached : r.cached? path name with
  | some address => exact ⟨rfl, .refl r⟩
  | none =>
      dsimp only
      rw [hsteady.finds]
      cases hfound : r.loader.findSymbol 0 path name with
      | error reason =>
          refine ⟨?_, .of_libraries rfl rfl rfl⟩
          rw [found, hfound]
          rfl
      | ok address =>
          obtain ⟨library, hlibrary⟩ := Option.isSome_iff_exists.1 hopen
          have hlibrary' : ({ r with lookups := r.lookups + 1 } : NativeRegistry).library? path =
            some library := hlibrary
          refine ⟨?_, .of_opened rfl rfl hopened ?_ (fun query => ?_) fun query hquery => ?_⟩
          · rw [found, hfound]
            rfl
          · rw [library?_keepSymbol, hlibrary']
            rfl
          · -- the symbol that is kept now is the one that the loader would find
            rw [answer_of_opened hopened, cached?_keepSymbol hlibrary']
            change ((r.cached? path query).or _).elim _ _ = _
            by_cases hquery : query = name
            · subst hquery
              rw [hcached, if_pos rfl, found, hfound]
              rfl
            · rw [if_neg hquery, Option.or_none]
          · exact library?_keepSymbol_of_ne hquery address

/-- A question is answered as if it were the first one, and has no influence on later ones. -/
theorem resolve_spec (hsteady : r.loader.Steady) (path name : String) :
    (r.resolve path name).1 = r.answer path name ∧ r.Alike (r.resolve path name).2 := by
  rw [resolve]
  rcases load_spec hsteady path with ⟨reason, r', hload, hopened, hloader, hbuiltins, hlibraries⟩ |
    ⟨library, r', hload, hopened, hloader, hbuiltins, hopen, hcached, hothers⟩
  · rw [hload, answer_of_opened_eq_error hopened]
    exact ⟨rfl, .of_libraries hloader hbuiltins hlibraries⟩
  · have halike : r.Alike r' := .of_opened hloader hbuiltins hopened hopen
      (fun name => by rw [hcached, answer_of_opened hopened]) hothers
    obtain ⟨hfst, hsnd⟩ := symbol_spec (hloader ▸ hsteady) hopen name
    rw [hload]
    exact ⟨hfst.trans (halike.answers path name), halike.trans hsnd⟩

/-- The registry was asked any questions. -/
inductive Consulted (r : NativeRegistry) : NativeRegistry → Prop where
  | unasked : Consulted r r
  | asked {r' : NativeRegistry} (path name : String) : Consulted r r' →
      Consulted r (r'.resolve path name).2

/-- A registry that was asked questions is like the one before, if its loader is steady. -/
theorem Consulted.alike (h : r.Consulted r') (hsteady : r.loader.Steady) : r.Alike r' := by
  induction h with
  | unasked => exact .refl r
  | asked path name _ ih => exact ih.trans (resolve_spec (ih.loader ▸ hsteady) path name).2

end NativeRegistry

end VaultKernel
