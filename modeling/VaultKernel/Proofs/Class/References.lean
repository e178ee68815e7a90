import VaultKernel.Class.Completion
import VaultKernel.Module
import VaultKernel.Proofs.Outcome
import VaultKernel.Vault.Load

/-!
# The classes that a class refers to

Resolution looks types up in the tables of a module, so whatever holds of every class in the tables
holds of every class in the result: in the types of fields, methods, arguments and handlers, in
aliases and in the constraints of generic parameters. `Within` says what holds of the tables.
-/

namespace VaultKernel

/-! ## References -/

/-- The classes that the constraints of a generic parameter name. -/
def GenericParam.refs (p : GenericParam) : List ClassRef := p.constraints.filterMap (·.type)

/-- The classes that a type names. -/
def TypeRef.refs : TypeRef → List ClassRef
  | .class ref => [ref]
  | .generic param => param.refs

/-- The classes that the handlers of a method catch. -/
def MethodHeader.refs (h : MethodHeader) : List ClassRef :=
  h.zones.flatMap fun z => z.catchTypes.filterMap id

/-- The classes that a method names. -/
def Method.refs (m : Method) : List ClassRef :=
  m.returnType.refs ++ m.arguments.flatMap (·.type.refs)
    ++ (m.header.map MethodHeader.refs).getD []

/-- The classes that the members of a class name. -/
def Class.refs (c : Class) : List ClassRef :=
  c.fields.flatMap (·.type.refs) ++ c.methods.flatMap Method.refs

/-- The classes that an alias names. -/
def Alias.refs : Alias → List ClassRef
  | .type _ target => [target]
  | .method _ returnType arguments => returnType.refs ++ arguments.flatMap (·.type.refs)

/-- The classes that the aliases and generic parameters of a module name. -/
def Module.refs (m : Module) : List ClassRef :=
  m.aliases.flatMap Alias.refs ++ m.generics.entries.flatMap (·.2.refs)

/-- A property of every class that the tables of a module lead to. -/
structure Symbols.Within (s : Symbols) (ok : ClassRef → Prop) : Prop where
  classes : ∀ e ∈ s.classes.entries, ok e.2
  generics : ∀ e ∈ s.generics.entries, ∀ r ∈ e.2.refs, ok r
  root : ok s.root

/-- An entry that is looked up is in the table. -/
theorem Table.exists_of_get? {κ α : Type} [DecidableEq κ] {t : Table κ α} {key : κ} {entry : α}
    (h : t.get? key = some entry) : ∃ k, (k, entry) ∈ t.entries := by
  obtain ⟨before, after, hentries, _⟩ := List.lookup_eq_some_iff.1 h
  exact ⟨key, by simp [hentries]⟩

/-- A table that is made of entries has those entries. -/
theorem Table.mem_ofList {κ α : Type} {entries : List (κ × α)} {e : κ × α} :
    e ∈ (Table.ofList entries).entries ↔ e ∈ entries := List.mem_reverse

variable {s : Symbols} {ok : ClassRef → Prop}

/-- A property of the classes in the tables may be weakened. -/
theorem Symbols.Within.mono (hs : s.Within ok) {ok' : ClassRef → Prop} (hok : ∀ r, ok r → ok' r) :
    s.Within ok' :=
  ⟨fun e he => hok _ (hs.classes e he), fun e he r hr => hok r (hs.generics e he r hr),
    hok _ hs.root⟩

/-! ## Types -/

/-- The class at an index has the property. -/
theorem Symbols.Within.classAt (hs : s.Within ok) {index : Int32} {r : ClassRef}
    (h : s.classAt index = .ok r) : ok r := by
  obtain ⟨name, _, hrest⟩ := bind_eq_ok.1 h
  split at hrest
  · next hget =>
      cases hrest
      obtain ⟨key, hmem⟩ := Table.exists_of_get? hget
      exact hs.classes _ hmem
  · cases hrest

/-- The classes in a type have the property. -/
theorem Symbols.Within.type (hs : s.Within ok) {t : Wire.TypeIndex} {type : TypeRef × String}
    (h : s.type t = .ok type) : ∀ r ∈ type.1.refs, ok r := by
  cases t with
  | type index =>
      obtain ⟨ref, href, hrest⟩ := bind_eq_ok.1 h
      obtain ⟨name, _, heq⟩ := bind_eq_ok.1 hrest
      cases pure_eq_ok.1 heq
      intro r hr
      rw [List.mem_singleton.1 hr]
      exact hs.classAt href
  | generic key =>
      simp only [Symbols.type] at h
      split at h
      · next hget =>
          cases h
          obtain ⟨k, hmem⟩ := Table.exists_of_get? hget
          exact hs.generics _ hmem
      · cases h

/-- The classes in the types of arguments have the property. -/
theorem Symbols.Within.arguments (hs : s.Within ok) {args : List Image.Argument}
    {resolved : List MethodArgument × List String} (h : s.arguments args = .ok resolved) :
    ∀ r ∈ resolved.1.flatMap (·.type.refs), ok r := by
  obtain ⟨pairs, hpairs, heq⟩ := bind_eq_ok.1 h
  cases pure_eq_ok.1 heq
  intro r hr
  rw [List.unzip_eq_map, List.mem_flatMap] at hr
  obtain ⟨a, ha, hr⟩ := hr
  obtain ⟨pair, hpair, rfl⟩ := List.mem_map.1 ha
  obtain ⟨arg, _, harg⟩ := exists_of_mapM_eq_ok hpairs pair hpair
  obtain ⟨⟨type, name⟩, htype, hrest⟩ := bind_eq_ok.1 harg
  obtain ⟨text, _, heq'⟩ := bind_eq_ok.1 hrest
  cases pure_eq_ok.1 heq'
  exact hs.type htype r hr

/-! ## Generic parameters and aliases -/

/-- The classes in the constraints of a generic parameter have the property. -/
theorem Symbols.Within.generic (hs : s.Within ok) {e : Image.GenericEntry}
    {param : Int32 × GenericParam} (h : Run.readGeneric s e = .ok param) :
    ∀ r ∈ param.2.refs, ok r := by
  obtain ⟨constraints, hconstraints, heq⟩ := bind_eq_ok.1 h
  cases pure_eq_ok.1 heq
  intro r hr
  obtain ⟨c, hc, htype⟩ := List.mem_filterMap.1 hr
  obtain ⟨entry, _, hentry⟩ := exists_of_mapM_eq_ok hconstraints c hc
  unfold Run.readConstraint at hentry
  cases hindex : entry.typeIndex with
  | none =>
      simp only [hindex] at hentry
      cases pure_eq_ok.1 hentry
      cases htype
  | some index =>
      simp only [hindex] at hentry
      obtain ⟨type, hclass, heq⟩ := bind_eq_ok.1 hentry
      obtain ⟨ref, href, rfl⟩ := map_eq_ok.1 hclass
      cases pure_eq_ok.1 heq
      cases htype
      exact hs.classAt href

/-- The class that an alias stands for has the property. -/
theorem Symbols.Within.alias (hs : s.Within ok) {e : Image.AliasEntry} {resolved : Alias}
    (h : Run.readAlias s e = .ok resolved) : ∀ r ∈ resolved.refs, ok r := by
  obtain ⟨name, _, hrest⟩ := bind_eq_ok.1 h
  cases htarget : e.target with
  | type index =>
      rw [htarget] at hrest
      obtain ⟨ref, href, heq⟩ := bind_eq_ok.1 hrest
      cases pure_eq_ok.1 heq
      intro r hr
      rw [List.mem_singleton.1 hr]
      exact hs.classAt href
  | method returnType args =>
      rw [htarget] at hrest
      obtain ⟨type, htype, hrest⟩ := bind_eq_ok.1 hrest
      obtain ⟨resolved, hargs, heq⟩ := bind_eq_ok.1 hrest
      cases pure_eq_ok.1 heq
      intro r hr
      rcases List.mem_append.1 hr with hr | hr
      · exact hs.type htype r hr
      · exact hs.arguments hargs r hr

/-! ## Members and parents -/

/-- The class in the type of a field has the property. -/
theorem Symbols.Within.field (hs : s.Within ok) {f : Image.Field} {field : Field}
    (h : DeclaredClass.field s f = .ok field) : ∀ r ∈ field.type.refs, ok r := by
  obtain ⟨name, _, hrest⟩ := bind_eq_ok.1 h
  obtain ⟨type, htype, heq⟩ := bind_eq_ok.1 hrest
  cases pure_eq_ok.1 heq
  exact hs.type htype

/-- The classes that the signature of a resolved method names. -/
def ResolvedMethod.refs (m : ResolvedMethod) : List ClassRef :=
  m.returnType.refs ++ m.arguments.flatMap (·.type.refs)

/-- The classes in the signature of a method have the property. -/
theorem Symbols.Within.method (hs : s.Within ok) {c : DeclaredClass} {block : Wire.Bytes}
    {m : ResolvedMethod} (h : c.method s block = .ok m) : ∀ r ∈ m.refs, ok r := by
  unfold DeclaredClass.method at h
  split at h
  · cases h
  · obtain ⟨name, _, hrest⟩ := bind_eq_ok.1 h
    obtain ⟨type, htype, hrest⟩ := bind_eq_ok.1 hrest
    obtain ⟨resolved, hargs, heq⟩ := bind_eq_ok.1 hrest
    cases pure_eq_ok.1 heq
    intro r hr
    rcases List.mem_append.1 hr with hr | hr
    · exact hs.type htype r hr
    · exact hs.arguments hargs r hr

/-- The classes in the types of all members have the property. -/
theorem Symbols.Within.members (hs : s.Within ok) {c : DeclaredClass}
    {members : List ResolvedMethod × List Field} (h : c.members s = .ok members) :
    (∀ m ∈ members.1, ∀ r ∈ m.refs, ok r) ∧ ∀ f ∈ members.2, ∀ r ∈ f.type.refs, ok r := by
  obtain ⟨methods, hmethods, hrest⟩ := bind_eq_ok.1 h
  obtain ⟨fields, hfields, heq⟩ := bind_eq_ok.1 hrest
  cases pure_eq_ok.1 heq
  refine ⟨fun m hm => ?_, fun f hf => ?_⟩
  · obtain ⟨block, _, hblock⟩ := exists_of_mapM_eq_ok hmethods m hm
    exact hs.method hblock
  · obtain ⟨field, _, hfield⟩ := exists_of_mapM_eq_ok hfields f hf
    exact hs.field hfield

/-- The parent of a class has the property. -/
theorem Symbols.Within.parent (hs : s.Within ok) {c : DeclaredClass} {parent : Option ClassRef}
    (h : c.parent s = .ok parent) : ∀ r, parent = some r → ok r := by
  unfold DeclaredClass.parent at h
  split at h
  · cases h
    intro r hr
    split at hr
    · cases hr
      exact hs.root
    · cases hr
  · obtain ⟨refs, hrefs, heq⟩ := bind_eq_ok.1 h
    cases pure_eq_ok.1 heq
    intro r hr
    obtain ⟨index, _, hindex⟩ := exists_of_mapM_eq_ok hrefs r (List.mem_of_find?_eq_some hr)
    exact hs.classAt hindex

/-- What resolution says about a class refers to nothing but the tables. -/
structure Run.ResolvedClass.Within (c : Run.ResolvedClass) (ok : ClassRef → Prop) : Prop where
  parent : ∀ r, c.parent = some r → ok r
  methods : ∀ m ∈ c.methods, ∀ r ∈ m.refs, ok r
  fields : ∀ f ∈ c.fields, ∀ r ∈ f.type.refs, ok r

/-- A property of the classes in a resolved class may be weakened. -/
theorem Run.ResolvedClass.Within.mono {c : Run.ResolvedClass} (hc : c.Within ok)
    {ok' : ClassRef → Prop} (hok : ∀ r, ok r → ok' r) : c.Within ok' :=
  ⟨fun r hr => hok r (hc.parent r hr), fun m hm r hr => hok r (hc.methods m hm r hr),
    fun f hf r hr => hok r (hc.fields f hf r hr)⟩

/-- The classes in every resolved class have the property. -/
theorem Symbols.Within.resolveClasses (hs : s.Within ok) {declared : List DeclaredClass}
    {resolved : List Run.ResolvedClass} (h : Run.resolveClasses s declared = .ok resolved) :
    ∀ c ∈ resolved, c.Within ok ∧ c.declared ∈ declared := by
  obtain ⟨parents, hparents, hrest⟩ := bind_eq_ok.1 h
  intro c hc
  obtain ⟨⟨d, parent⟩, hpair, hclass⟩ := exists_of_mapM_eq_ok hrest c hc
  obtain ⟨hd, hparent⟩ := List.of_mem_zip hpair
  obtain ⟨members, hmembers, heq⟩ := bind_eq_ok.1 hclass
  cases pure_eq_ok.1 heq
  obtain ⟨hmethods, hfields⟩ := hs.members hmembers
  obtain ⟨d', _, hd'⟩ := exists_of_mapM_eq_ok hparents parent hparent
  exact ⟨⟨hs.parent hd', hmethods, hfields⟩, hd⟩

/-! ## Finished methods -/

/-- Whether a method has a body exactly if it is neither native nor abstract, and a binding exactly
if it is native and the class is linked. -/
def Method.Shaped (m : Method) (linked : Bool) : Prop :=
  m.header.isSome = (!m.flags.has .native && !m.flags.has .abstract) ∧
    m.native.isSome = (linked && m.flags.has .native)

/-- A catch type has the property. -/
theorem Symbols.Within.catchType (hs : s.Within ok) {index : Int32} {type : Option ClassRef}
    (h : s.catchType index = .ok type) : ∀ r, type = some r → ok r := by
  unfold Symbols.catchType at h
  split at h
  · cases h
    intro r hr
    cases hr
  · split at h
    · next type' name htype =>
        cases h
        intro r hr
        have hrefs := hs.type htype r
        cases type' with
        | «class» ref =>
            cases hr
            exact hrefs (by simp [TypeRef.refs])
        | generic param => cases hr
    · cases h

/-- The catch types of a method have the property. -/
theorem Symbols.Within.header (hs : s.Within ok) {m : ResolvedMethod} {header : MethodHeader}
    (h : m.header s = .ok header) : ∀ r ∈ header.refs, ok r := by
  unfold ResolvedMethod.header at h
  split at h
  · cases h
  · obtain ⟨zones, hzones, heq⟩ := bind_eq_ok.1 h
    cases pure_eq_ok.1 heq
    intro r hr
    obtain ⟨zone, hzone, hr⟩ := List.mem_flatMap.1 hr
    obtain ⟨type, htype, rfl⟩ := List.mem_filterMap.1 hr
    obtain ⟨z, _, hz⟩ := exists_of_mapM_eq_ok hzones zone hzone
    obtain ⟨catchTypes, hcatch, heq'⟩ := bind_eq_ok.1 hz
    cases pure_eq_ok.1 heq'
    obtain ⟨index, _, hindex⟩ := exists_of_mapM_eq_ok hcatch _ htype
    exact hs.catchType hindex r rfl

/-- A finished method refers to nothing but the tables, and has its body. -/
theorem Symbols.Within.complete (hs : s.Within ok) {m : ResolvedMethod} {done : Method}
    (hm : ∀ r ∈ m.refs, ok r) (h : m.complete s = .ok done) :
    (∀ r ∈ done.refs, ok r) ∧ done.Shaped false := by
  unfold ResolvedMethod.complete at h
  by_cases hbody : m.hasNoBody
  · rw [if_pos hbody] at h
    obtain ⟨header, hheader, heq⟩ := bind_eq_ok.1 h
    cases pure_eq_ok.1 hheader
    cases pure_eq_ok.1 heq
    refine ⟨?_, ?_⟩
    · intro r hr
      simp only [Method.refs, Option.map_none, Option.getD_none, List.append_nil] at hr
      exact hm r hr
    · refine ⟨?_, rfl⟩
      rw [← Bool.not_or]
      show false = !m.hasNoBody
      rw [hbody]
      rfl
  · rw [if_neg hbody] at h
    obtain ⟨header, hheader, heq⟩ := bind_eq_ok.1 h
    obtain ⟨body, hread, rfl⟩ := map_eq_ok.1 hheader
    cases pure_eq_ok.1 heq
    refine ⟨?_, ?_⟩
    · intro r hr
      rcases List.mem_append.1 hr with hr | hr
      · exact hm r hr
      · exact hs.header hread r hr
    · refine ⟨?_, rfl⟩
      rw [← Bool.not_or]
      show true = !m.hasNoBody
      rw [eq_false_of_ne_true hbody]
      rfl

end VaultKernel
