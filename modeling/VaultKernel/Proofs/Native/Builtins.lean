import Mathlib.Data.List.TakeWhile
import VaultKernel.Class.Completion
import VaultKernel.Native.Linking
import VaultKernel.Proofs.Class.Resolution
import VaultKernel.Proofs.Text.Split

/-!
# Which builtin a native method is bound to

A builtin is registered under a name and argument types. For a method the linker asks for a symbol
together with what the signature of the method has from its first parenthesis on. These are the
argument types of the method, unless the name of the method has a parenthesis itself: then the rest
of the name counts as well, and the key is not the one under which the symbol is registered
(`builtinKey_parenthesis`). `Method.LinksBuiltin` says what linking does with either kind of name;
`builtin_linked` is the main statement.
-/

namespace VaultKernel

/-! ## Keys -/

namespace Builtin

/-- The name of a type that has none of the characters with which keys set names apart. -/
structure PlainType (type : String) : Prop where
  nonempty : type ≠ ""
  comma : ',' ∉ type.toList
  parenthesis : '(' ∉ type.toList

variable {name name' : String} {types types' : List String}

/-- A key is a name followed by the types in parentheses. -/
theorem key_toList (name : String) (types : List String) :
    (key name types).toList = name.toList ++ '(' :: ((Text.join "," types).toList ++ [')']) := by
  simp [key]

/-- A character that no type has is not in the types with commas between them. -/
theorem not_mem_join {c : Char} (hcomma : c ≠ ',') (h : ∀ t ∈ types, c ∉ t.toList) :
    c ∉ (Text.join "," types).toList := by
  induction types with
  | nil => simp [Text.join]
  | cons t types ih =>
      cases types with
      | nil => exact h t (by simp)
      | cons u types =>
          have hrest := ih fun t ht => h t (by simp [ht])
          show c ∉ (t ++ "," ++ Text.join "," (u :: types)).toList
          simp [h t (by simp), hcomma, hrest]

/-- Types without commas are the pieces between the commas. -/
theorem pieces_types (h : ∀ t ∈ types, PlainType t) (hsome : types ≠ []) :
    Text.pieces ',' (Text.join "," types).toList = types.map String.toList :=
  Text.pieces_join rfl hsome fun t ht => (h t ht).comma

/-- Only no types at all are joined to nothing. -/
theorem join_eq_empty_iff (h : ∀ t ∈ types, PlainType t) :
    Text.join "," types = "" ↔ types = [] := by
  refine ⟨fun hempty => ?_, fun hnil => by rw [hnil]; rfl⟩
  by_contra hsome
  have hpieces := pieces_types h hsome
  rw [hempty] at hpieces
  obtain ⟨t, rfl, ht⟩ := List.map_eq_singleton_iff.1 hpieces.symm
  exact (h t (by simp)).nonempty (String.toList_eq_nil_iff.1 ht)

/-- A list of plain names can be read off its join. -/
theorem join_inj (h : ∀ t ∈ types, PlainType t) (h' : ∀ t ∈ types', PlainType t)
    (heq : Text.join "," types = Text.join "," types') : types = types' := by
  by_cases hnil : types = []
  · rw [(join_eq_empty_iff h).2 hnil] at heq
    rw [hnil, (join_eq_empty_iff h').1 heq.symm]
  · have hnil' : types' ≠ [] := by
      rintro rfl
      exact hnil ((join_eq_empty_iff h).1 heq)
    have hpieces := pieces_types h hnil
    rw [heq, pieces_types h' hnil'] at hpieces
    have hinjective : Function.Injective String.toList := fun _ _ => String.toList_injective
    exact List.map_injective_iff.2 hinjective hpieces.symm

/-- With plain types no two builtins share a key: the types follow the last parenthesis. -/
theorem key_inj (h : ∀ t ∈ types, PlainType t) (h' : ∀ t ∈ types', PlainType t) :
    key name types = key name' types' ↔ name = name' ∧ types = types' := by
  refine ⟨fun heq => ?_, fun ⟨hname, htypes⟩ => by rw [hname, htypes]⟩
  have hlast : ∀ {types : List String}, (∀ t ∈ types, PlainType t) →
      '(' ∉ (Text.join "," types).toList ++ [')'] := by
    intro types h
    simpa using not_mem_join (by decide) fun t ht => (h t ht).parenthesis
  have hsplit := congrArg (fun k : String => Text.splitLast '(' k.toList) heq
  rw [key_toList, key_toList, Text.splitLast_append _ (hlast h), Text.splitLast_append _ (hlast h')]
    at hsplit
  obtain ⟨hname, hjoin⟩ := Prod.mk.inj (Option.some.inj hsplit)
  exact ⟨String.toList_injective hname,
    join_inj h h' (String.toList_injective (List.append_cancel_right hjoin))⟩

end Builtin

/-! ## Registrations -/

namespace NativeRegistry

variable {r : NativeRegistry}

/-- Registers functions under names and argument types, one after the other. -/
def registerAll (r : NativeRegistry) (items : List (String × List String × Builtin)) :
    NativeRegistry :=
  items.foldl (fun r (name, types, function) => r.register name types function) r

/-- The function that was registered last under a key. -/
def latest? (items : List (String × List String × Builtin)) (key : String) : Option Builtin :=
  (items.reverse.find? fun item => Builtin.key item.1 item.2.1 = key).map (·.2.2)

/-- Dropping one key from a list does not matter to the search for another. -/
theorem lookup_filter_ne {first key : String} (hne : first ≠ key) (l : List (String × Builtin)) :
    (l.filter (·.1 ≠ first)).lookup key = l.lookup key := by
  induction l with
  | nil => rfl
  | cons item l ih =>
      obtain ⟨itemKey, function⟩ := item
      by_cases hitem : itemKey = first
      · subst itemKey
        have hkey : (key == first) = false := by simpa using Ne.symm hne
        rw [List.filter_cons_of_neg (by simp), ih, List.lookup_cons, hkey]
      · rw [List.filter_cons_of_pos (by simpa using hitem), List.lookup_cons, List.lookup_cons, ih]

/-- What is found under a key after a registration. -/
theorem builtin?_register (name : String) (types : List String) (function : Builtin)
    (key : String) :
    (r.register name types function).builtin? key =
      if Builtin.key name types = key then some function else r.builtin? key := by
  rw [builtin?, register, List.lookup_cons]
  by_cases hkey : Builtin.key name types = key
  · simp [hkey]
  · have hfalse : (key == Builtin.key name types) = false := by simpa using Ne.symm hkey
    rw [hfalse, if_neg hkey]
    exact lookup_filter_ne hkey r.builtins

/-- After a number of registrations a key belongs to the last of them that used it. -/
theorem builtin?_registerAll (items : List (String × List String × Builtin)) (key : String) :
    (r.registerAll items).builtin? key = (latest? items key).or (r.builtin? key) := by
  induction items generalizing r with
  | nil => rfl
  | cons item items ih =>
      obtain ⟨name, types, function⟩ := item
      show ((r.register name types function).registerAll items).builtin? key = _
      rw [ih, builtin?_register, latest?, latest?, List.reverse_cons, List.find?_append]
      cases items.reverse.find? (fun item => Builtin.key item.1 item.2.1 = key) with
      | some last => rfl
      | none => by_cases hkey : Builtin.key name types = key <;> simp [hkey]

/-- A function is found under a key exactly when one was registered under it. -/
theorem latest?_isSome_iff {items : List (String × List String × Builtin)} {key : String} :
    (latest? items key).isSome ↔ ∃ item ∈ items, Builtin.key item.1 item.2.1 = key := by
  simp only [latest?, Option.isSome_map, List.find?_isSome, List.mem_reverse, decide_eq_true_eq]

/-- The binding of a method that asks for a key under which a function is found or not. -/
def bindingOf (key : String) (found : Option Builtin) : NativeBinding :=
  match found with
  | some function => .builtin key function
  | none => .unavailable (.builtinNotFound key)

/-- How a registry binds a method that asks for a key. -/
def bindingFor (r : NativeRegistry) (key : String) : NativeBinding := bindingOf key (r.builtin? key)

/-- How methods are bound depends on the builtins of a registry only. -/
theorem bindingFor_congr {r' : NativeRegistry} (h : r'.builtins = r.builtins) :
    r'.bindingFor = r.bindingFor := by
  funext key
  rw [bindingFor, bindingFor, builtin?, builtin?, h]

/-- Opening a library registers no builtin. -/
theorem load_builtins (r : NativeRegistry) (path : String) :
    (r.load path).2.builtins = r.builtins := by
  unfold load
  split
  · rfl
  · dsimp only
    split <;> rfl

/-- Finding a symbol registers no builtin. -/
theorem symbol_builtins (r : NativeRegistry) (path name : String) :
    (r.symbol path name).2.builtins = r.builtins := by
  unfold symbol
  split
  · rfl
  · dsimp only
    split <;> rfl

/-- Libraries come and go without the builtins. -/
theorem resolve_builtins (r : NativeRegistry) (path name : String) :
    (r.resolve path name).2.builtins = r.builtins := by
  have hload := r.load_builtins path
  unfold resolve
  split
  · next loaded heq =>
      rw [heq] at hload
      rw [symbol_builtins]
      exact hload
  · next e loaded heq =>
      rw [heq] at hload
      exact hload

end NativeRegistry

/-! ## Linking -/

open NativeRegistry

namespace Method

variable {m : Method} {symbol : String} {shorts : List String} {r : NativeRegistry}

/-- What the linker takes for arguments in the name of a method: all from its first parenthesis
on. -/
def surplus (m : Method) : String := String.ofList (m.name.toList.dropWhile (· ≠ '('))

/-- The surplus of a name starts at its first parenthesis. -/
theorem surplus_toList (m : Method) : m.surplus.toList = m.name.toList.dropWhile (· ≠ '(') := by
  rw [surplus, String.toList_ofList]

/-- A name without a parenthesis has no surplus. -/
theorem surplus_eq_empty_iff : m.surplus = "" ↔ '(' ∉ m.name.toList := by
  rw [← String.toList_eq_nil_iff, surplus_toList, List.dropWhile_eq_nil_iff]
  constructor
  · intro h hmem
    simpa using h _ hmem
  · intro h c hc
    have hne : c ≠ '(' := by
      rintro rfl
      exact h hc
    simpa using hne

/-- The key has whatever follows the first parenthesis of the signature. -/
theorem builtinKey_eq (hsignature : m.signature = Builtin.key m.name shorts) (symbol : String) :
    m.builtinKey symbol = Builtin.key (symbol ++ m.surplus) shorts := by
  have htext := Builtin.key_toList m.name shorts
  rw [← hsignature] at htext
  obtain ⟨⟨front, rest⟩, hsplit⟩ :
      ∃ parts, Text.splitFirst '(' m.signature.toList = some parts := by
    rw [← Option.ne_none_iff_exists', Ne, Text.splitFirst_eq_none_iff, htext, not_not]
    simp
  have hrest := Text.dropWhile_of_splitFirst hsplit
  apply String.toList_injective
  rw [Builtin.key_toList, builtinKey, hsplit, String.toList_append, String.toList_append,
    String.toList_ofList, surplus_toList, ← hrest, htext, List.append_assoc, List.dropWhile_append]
  split
  · next hempty =>
      rw [List.isEmpty_iff.1 hempty]
      rfl
  · rfl

/-- It is the key of the symbol if the name does not get in between. -/
theorem builtinKey_eq_iff (hsignature : m.signature = Builtin.key m.name shorts)
    (symbol : String) : m.builtinKey symbol = Builtin.key symbol shorts ↔ '(' ∉ m.name.toList := by
  rw [builtinKey_eq hsignature, ← surplus_eq_empty_iff]
  constructor
  · intro h
    have hlists := congrArg String.toList h
    rw [Builtin.key_toList, Builtin.key_toList, List.append_cancel_right_eq, String.toList_append,
      List.append_right_eq_self] at hlists
    exact String.toList_eq_nil_iff.1 hlists
  · intro h
    rw [h, String.append_empty]

/-- A method bound to what a registry has for a symbol. -/
def boundTo (m : Method) (r : NativeRegistry) (symbol : String) : Method :=
  { m with native := some (r.bindingFor (m.builtinKey symbol)) }

/-- What a method is bound to depends on the builtins of a registry only. -/
theorem boundTo_congr {r' : NativeRegistry} (h : r'.builtins = r.builtins) (m : Method)
    (symbol : String) : m.boundTo r' symbol = m.boundTo r symbol := by
  rw [boundTo, boundTo, bindingFor_congr h]

/-- A native method whose aspect names the builtins is bound without asking any library. -/
theorem link_builtin (hnative : m.isNative)
    (htarget : m.nativeTarget = .ok (internalLibrary, symbol)) (place : MethodRef) :
    m.link place r = .ok (m.boundTo r symbol) r := by
  have hbind : m.bind place r = .ok (r.bindingFor (m.builtinKey symbol)) r := by
    unfold bind bindingFor bindingOf
    rw [htarget]
    dsimp only
    rw [if_pos rfl]
    cases r.builtin? (m.builtinKey symbol) <;> rfl
  rw [link, if_pos hnative]
  exact bind_of_eq_ok hbind rfl

/-- Linking a method leaves the builtins alone. -/
theorem builtins_of_link {m' : Method} {place : MethodRef} {r' : NativeRegistry}
    (h : m.link place r = .ok m' r') : r'.builtins = r.builtins := by
  unfold link at h
  split at h
  · obtain ⟨binding, t, hbind, hpure⟩ := bind_ok_cases h
    cases hpure
    unfold bind at hbind
    split at hbind
    · cases hbind
    · next library name _ =>
        split at hbind
        · dsimp only at hbind
          split at hbind <;> cases hbind <;> rfl
        · have hresolve := r.resolve_builtins library name
          split at hbind
          all_goals
            next heq =>
              cases hbind
              rw [heq] at hresolve
              exact hresolve
  · cases h
    rfl

end Method

variable {r r' : NativeRegistry}

/-- In a class each method that asks for a builtin gets it, whatever the methods before it ask
for. -/
theorem linkMethods_builtin {owner : ClassRef} {index : Nat} {ms linked : List Method}
    (h : linkMethods owner index ms r = .ok linked r') :
    r'.builtins = r.builtins ∧ ∀ (i : Nat) (m : Method) (symbol : String), ms[i]? = some m →
      m.isNative → m.nativeTarget = .ok (Method.internalLibrary, symbol) →
      linked[i]? = some (m.boundTo r symbol) := by
  induction ms generalizing index r linked with
  | nil =>
      cases h
      simp
  | cons first ms ih =>
      obtain ⟨first', t, hfirst, h⟩ := bind_ok_cases h
      obtain ⟨rest, u, hrest, h⟩ := bind_ok_cases h
      cases h
      have hbuiltins := Method.builtins_of_link hfirst
      obtain ⟨hkept, hlinked⟩ := ih hrest
      refine ⟨hkept.trans hbuiltins, fun i m symbol hm hnative htarget => ?_⟩
      cases i with
      | zero =>
          cases hm
          rw [Method.link_builtin hnative htarget] at hfirst
          cases hfirst
          rfl
      | succ i =>
          rw [← Method.boundTo_congr hbuiltins]
          exact hlinked i m symbol hm hnative htarget

/-- The same holds of all classes that are linked together. -/
theorem Classes.linked_builtin {classes : Classes} {refs : List ClassRef}
    {pairs : List (ClassRef × List Method)} (h : classes.linked refs r = .ok pairs r') :
    r'.builtins = r.builtins ∧ ∀ ref ∈ refs, ∀ c, classes.get? ref = some c →
      ∃ methods, (ref, methods) ∈ pairs ∧ ∀ (i : Nat) (m : Method) (symbol : String),
        c.methods[i]? = some m → m.isNative →
        m.nativeTarget = .ok (Method.internalLibrary, symbol) →
        methods[i]? = some (m.boundTo r symbol) := by
  induction refs generalizing r pairs with
  | nil =>
      cases h
      simp
  | cons ref refs ih =>
      rw [Classes.linked] at h
      cases hc : classes.get? ref with
      | none =>
          rw [hc] at h
          obtain ⟨hkept, hlinked⟩ := ih h
          refine ⟨hkept, fun ref' href' c' hc' => ?_⟩
          rcases List.mem_cons.1 href' with rfl | href'
          · cases hc.symm.trans hc'
          · exact hlinked ref' href' c' hc'
      | some c =>
          rw [hc] at h
          obtain ⟨methods, t, hmethods, h⟩ := bind_ok_cases h
          obtain ⟨rest, u, hrest, h⟩ := bind_ok_cases h
          cases h
          obtain ⟨hbuiltins, hfirst⟩ := linkMethods_builtin hmethods
          obtain ⟨hkept, hlinked⟩ := ih hrest
          refine ⟨hkept.trans hbuiltins, fun ref' href' c' hc' => ?_⟩
          rcases List.mem_cons.1 href' with rfl | href'
          · cases hc.symm.trans hc'
            exact ⟨methods, by simp, hfirst⟩
          · obtain ⟨methods', hmem, hbound⟩ := hlinked ref' href' c' hc'
            refine ⟨methods', by simp [hmem], fun i m symbol hm hnative htarget => ?_⟩
            rw [← Method.boundTo_congr hbuiltins]
            exact hbound i m symbol hm hnative htarget

/-! ## Main statement -/

namespace Method

variable {m : Method} {symbol : String} {shorts : List String}

/-- Whether a method is bound to a builtin. -/
def IsBound (m : Method) : Prop := ∃ key function, m.native = some (.builtin key function)

/-- What linking does with a method whose aspect names the builtins and a symbol. -/
structure LinksBuiltin (m : Method) (symbol : String) (shorts : List String) : Prop where
  /-- From a parenthesis on the linker takes the name of the method for a part of the key. -/
  key : m.builtinKey symbol = Builtin.key (symbol ++ m.surplus) shorts
  key_iff : m.builtinKey symbol = Builtin.key symbol shorts ↔ '(' ∉ m.name.toList
  /-- Linking succeeds and does not change the registry. -/
  link : ∀ place r, m.link place r = .ok (m.boundTo r symbol) r
  /-- When classes are linked together, the method is bound as it would be alone. -/
  linked : ∀ (classes : Classes) refs r pairs r', classes.linked refs r = .ok pairs r' →
    ∀ ref ∈ refs, ∀ c, classes.get? ref = some c → ∀ i : Nat, c.methods[i]? = some m →
      ∃ methods, (ref, methods) ∈ pairs ∧ methods[i]? = some (m.boundTo r symbol)
  /-- The method gets what was registered last under its key, and nothing if nothing was. -/
  bound : ∀ (r : NativeRegistry) items, r.builtins = [] →
    (m.boundTo (r.registerAll items) symbol).native =
      some (bindingOf (m.builtinKey symbol) (latest? items (m.builtinKey symbol)))
  /-- Without a parenthesis in the name that is what was registered under the key of the symbol and
  the argument types. -/
  bound_iff : '(' ∉ m.name.toList → ∀ (r : NativeRegistry) items, r.builtins = [] →
    ((m.boundTo (r.registerAll items) symbol).IsBound ↔
      ∃ item ∈ items, Builtin.key item.1 item.2.1 = Builtin.key symbol shorts)
  /-- With plain types such a key is used for nothing else. -/
  bound_iff_registered : ∀ (r : NativeRegistry) (items : List (String × List String × Builtin)),
    r.builtins = [] → (∀ t ∈ shorts, Builtin.PlainType t) →
    (∀ item ∈ items, ∀ t ∈ item.2.1, Builtin.PlainType t) →
    ((m.boundTo (r.registerAll items) symbol).IsBound ↔
      ∃ function, (symbol ++ m.surplus, shorts, function) ∈ items)

/-- A method is bound to what was registered last under the key that it asks for. -/
theorem boundTo_registerAll (hempty : r.builtins = [])
    (items : List (String × List String × Builtin)) :
    (m.boundTo (r.registerAll items) symbol).native =
      some (bindingOf (m.builtinKey symbol) (latest? items (m.builtinKey symbol))) := by
  have hnone : r.builtin? (m.builtinKey symbol) = none := by
    rw [builtin?, hempty]
    rfl
  rw [boundTo, bindingFor, builtin?_registerAll, hnone, Option.or_none]

/-- A method is bound to a builtin exactly when one was registered under the key that it asks
for. -/
theorem isBound_registerAll_iff (hempty : r.builtins = [])
    (items : List (String × List String × Builtin)) :
    (m.boundTo (r.registerAll items) symbol).IsBound ↔
      ∃ item ∈ items, Builtin.key item.1 item.2.1 = m.builtinKey symbol := by
  rw [← latest?_isSome_iff]
  simp only [IsBound, boundTo_registerAll hempty, bindingOf]
  cases latest? items (m.builtinKey symbol) <;> simp

/-- Linking does the same with every method that asks for a builtin. -/
theorem linksBuiltin (hsignature : m.signature = Builtin.key m.name shorts) (hnative : m.isNative)
    (htarget : m.nativeTarget = .ok (internalLibrary, symbol)) : m.LinksBuiltin symbol shorts where
  key := builtinKey_eq hsignature symbol
  key_iff := builtinKey_eq_iff hsignature symbol
  link place _ := link_builtin hnative htarget place
  linked _ _ _ _ _ h ref href c hc i hm := by
    obtain ⟨methods, hmem, hmethods⟩ := (Classes.linked_builtin h).2 ref href c hc
    exact ⟨methods, hmem, hmethods i m symbol hm hnative htarget⟩
  bound _ items hempty := boundTo_registerAll hempty items
  bound_iff hname _ items hempty := by
    rw [isBound_registerAll_iff hempty, (builtinKey_eq_iff hsignature symbol).2 hname]
  bound_iff_registered _ items hempty hshorts hitems := by
    rw [isBound_registerAll_iff hempty, builtinKey_eq hsignature]
    constructor
    · rintro ⟨⟨name, types, function⟩, hitem, heq⟩
      obtain ⟨rfl, rfl⟩ := (Builtin.key_inj (hitems _ hitem) hshorts).1 heq
      exact ⟨function, hitem⟩
    · rintro ⟨function, hitem⟩
      exact ⟨_, hitem, rfl⟩

end Method

/-- A native method needs no body, so it is always completed. -/
theorem ResolvedMethod.complete_of_native {m : ResolvedMethod} (h : m.flags.has .native)
    (s : Symbols) :
    m.complete s = .ok
      { name := m.name, signature := m.signature, flags := m.flags, returnType := m.returnType
        arguments := m.arguments } := by
  rw [complete, hasNoBody, h]
  rfl

/-- A native method that is read from an image is completed; whatever symbol of the builtins its
aspects then name, the linker asks for it with the argument types of the method, but with the rest
of its name in between if that has a parenthesis. -/
theorem builtin_linked {c : DeclaredClass} {s : Symbols} {block : Wire.Bytes} {rm : ResolvedMethod}
    (hmethod : c.method s block = .ok rm) (hnative : rm.flags.has .native) :
    ∃ d shorts done, Image.Method.decode block = .ok d ∧ s.Declares d shorts rm ∧
      rm.complete s = .ok done ∧ ∀ (aspects : List Aspect) (symbol : String),
        ({ done with aspects } : Method).nativeTarget = .ok (Method.internalLibrary, symbol) →
        ({ done with aspects } : Method).LinksBuiltin symbol shorts := by
  obtain ⟨d, shorts, hdecode, hdeclares⟩ := DeclaredClass.method_eq_ok_iff.1 hmethod
  refine ⟨d, shorts, _, hdecode, hdeclares, ResolvedMethod.complete_of_native hnative s, ?_⟩
  intro aspects symbol htarget
  exact Method.linksBuiltin hdeclares.signature hnative htarget

/-! ## A method for the builtin `seek` -/

/-- The tables for a method with the given name. -/
def seekSymbols (name : String) : Symbols where
  module := "app"
  strings := .ofList [(0, name), (1, "at")]
  types := .ofList [(0, ⟨"std%std/Int32"⟩)]
  classes := .ofList [(⟨"std%std/Int32"⟩, ⟨0, 0⟩)]
  root := ⟨1, 0⟩

/-- A static native method with one argument. -/
def seekBlock : Wire.Bytes :=
  [0, 0, 0, 0, 35, 0, 0, 0, 0, 0, 0, 0] ++ [0, 0, 0, 0, 0] ++
    [1, 0, 0, 0, 1, 0, 0, 0, 0, 0, 0, 0, 0]

/-- The class with the method. -/
def seekClass : DeclaredClass := ⟨⟨2, 0⟩, ⟨"app%app/Program"⟩, [], [seekBlock], []⟩

/-- The method with the given name. -/
def seekMethod (name : String) : ResolvedMethod where
  name := name
  signature := name ++ "(Int32)"
  flags := .ofList [.openAccess, .static, .native]
  returnType := .class ⟨0, 0⟩
  arguments := [⟨"at", .class ⟨0, 0⟩⟩]
  maxStack := 0
  locals := 0
  body := []

/-- The aspect that names the builtin. -/
def seekAspect (name : String) : Aspect where
  name := Aspect.native
  target := .method "Program" name
  arguments := [⟨0, .string Method.internalLibrary⟩, ⟨1, .string "seek"⟩]

theorem builtin_linked_seek :
    seekClass.method (seekSymbols "seek") seekBlock = .ok (seekMethod "seek") ∧
      (seekMethod "seek").flags.has .native ∧
      ∃ shorts done, (seekMethod "seek").complete (seekSymbols "seek") = .ok done ∧
        ({ done with aspects := [seekAspect "seek"] } : Method).LinksBuiltin "seek" shorts := by
  have hmethod : seekClass.method (seekSymbols "seek") seekBlock = .ok (seekMethod "seek") := by
    decide
  have hnative : (seekMethod "seek").flags.has .native := by decide
  obtain ⟨d, shorts, done, _, _, hdone, hlinks⟩ := builtin_linked hmethod hnative
  refine ⟨hmethod, hnative, shorts, done, hdone, hlinks _ _ ?_⟩
  cases hdone
  rfl

/-- A method whose name has a parenthesis is not bound to the builtin that is registered under its
symbol and argument types. -/
theorem builtinKey_parenthesis :
    let registry := ({} : NativeRegistry).registerAll [("seek", ["Int32"], .firstArgument)]
    ∃ done : Method,
      seekClass.method (seekSymbols "seek(fast") seekBlock = .ok (seekMethod "seek(fast") ∧
        (seekMethod "seek(fast").complete (seekSymbols "seek(fast") = .ok done ∧
        let m := { done with aspects := [seekAspect "seek(fast"] }
        m.nativeTarget = .ok (Method.internalLibrary, "seek") ∧
          registry.builtin? (Builtin.key "seek" ["Int32"]) = some .firstArgument ∧
          m.builtinKey "seek" ≠ Builtin.key "seek" ["Int32"] ∧
          (answerOf? (m.link ⟨⟨2, 0⟩, 0⟩ registry)).bind Method.native =
            some (.unavailable (.builtinNotFound "seek(fast(Int32)")) := by
  exact ⟨_, by decide, rfl, rfl, by decide, by decide, by decide⟩

end VaultKernel
