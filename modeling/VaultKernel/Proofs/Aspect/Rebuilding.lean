import Mathlib.Data.List.Forall2
import Mathlib.Data.List.Nodup
import Mathlib.Data.List.Perm.Basic
import VaultKernel.Proofs.Aspect.Keys

/-!
# Aspects that travel as constants

An aspect is stored as one constant for each argument. Read `ofConstants_rebuilds`: from a table of
constants, in whatever order and among whatever else they were stored, the aspects come back in the
order of first appearance, each with its own arguments in the order of their numbers. The table
keeps the constants apart because their keys differ, and `foldl_addToGroup` says what grouping by
key makes of any list.
-/

namespace VaultKernel

namespace Aspect

/-- The constants that store an aspect. -/
def constants (a : Aspect) : List ConstantEntry :=
  a.arguments.map fun x => ⟨key a.name a.target x.index, x.value⟩

/-- An aspect that can be read back from its constants. -/
structure Legible (a : Aspect) : Prop where
  name_ne : a.name ≠ ""
  name_undivided : Undivided a.name
  target : a.target.Legible
  indices : (a.arguments.map (·.index)).Nodup

/-- Whether a key is spelled like the key of an aspect. -/
def IsOpened (e : ConstantEntry) : Prop := opening.toList <+: e.name.toList

instance : DecidablePred IsOpened := fun e =>
  inferInstanceAs (Decidable (opening.toList <+: e.name.toList))

/-- The aspects whose constants are among the given ones, in the order of their first ones. -/
def appearing (aspects : List Aspect) (entries : List ConstantEntry) : List Aspect :=
  (entries.filterMap fun e => aspects.find? fun a => e ∈ a.constants).eraseDups

/-- The second aspect is the first one with its arguments in the order of their numbers. -/
structure Rebuilt (a b : Aspect) : Prop where
  name : b.name = a.name
  target : b.target = a.target
  arguments : b.arguments.Perm a.arguments
  ordered : b.arguments.Pairwise (·.index < ·.index)

/-! ## Repetitions -/

/-- A further element is kept unless it was there before. -/
theorem eraseDups_concat {α : Type} [DecidableEq α] (xs : List α) (x : α) :
    (xs ++ [x]).eraseDups = if x ∈ xs then xs.eraseDups else xs.eraseDups ++ [x] := by
  rw [List.eraseDups_append]
  by_cases hx : x ∈ xs
  · simp [List.removeAll, hx]
  · simp [List.removeAll, hx, List.eraseDups_cons]

/-- What is left of a list without its repetitions has none. -/
theorem nodup_eraseDups {α : Type} [DecidableEq α] (xs : List α) : xs.eraseDups.Nodup := by
  induction xs using List.reverseRecOn with
  | nil => exact List.nodup_nil
  | append_singleton xs x ih =>
      rw [eraseDups_concat]
      split
      · exact ih
      · next hx =>
          refine List.nodup_append'.2 ⟨ih, List.nodup_singleton _, ?_⟩
          intro y hy hyx
          exact hx (List.mem_singleton.1 hyx ▸ List.mem_eraseDups.1 hy)

/-- Repetitions may be dropped before or after a change that keeps elements apart. -/
theorem eraseDups_map {α β : Type} [DecidableEq α] [DecidableEq β] {f : α → β} {xs : List α}
    (hf : ∀ x ∈ xs, ∀ y ∈ xs, f x = f y → x = y) :
    (xs.map f).eraseDups = xs.eraseDups.map f := by
  induction xs using List.reverseRecOn with
  | nil => rfl
  | append_singleton xs x ih =>
      have hmem : f x ∈ xs.map f ↔ x ∈ xs := by
        refine ⟨fun h => ?_, List.mem_map_of_mem⟩
        obtain ⟨y, hy, heq⟩ := List.mem_map.1 h
        rwa [← hf y (by simp [hy]) x (by simp) heq]
      rw [List.map_append, List.map_singleton, eraseDups_concat, eraseDups_concat]
      simp only [hmem]
      rw [ih fun y hy z hz => hf y (by simp [hy]) z (by simp [hz])]
      split
      · rfl
      · rw [List.map_append, List.map_singleton]

/-! ## Groups -/

/-- Grouping makes one group for each key, in order of first appearance, with all that has the
key. -/
theorem foldl_addToGroup (items : List (String × AspectArgument)) :
    items.foldl addToGroup [] = (items.map (·.1)).eraseDups.map fun k =>
      (k, (items.filter (·.1 = k)).map (·.2)) := by
  induction items using List.reverseRecOn with
  | nil => rfl
  | append_singleton items item ih =>
      have hvalues : ∀ k, ((items ++ [item]).filter (·.1 = k)).map (·.2) =
          (items.filter (·.1 = k)).map (·.2) ++ if item.1 = k then [item.2] else [] := by
        intro k
        rw [List.filter_append, List.map_append]
        by_cases hk : item.1 = k <;> simp [hk]
      have hknown : (items.map (·.1)).eraseDups.any (fun k => k = item.1) =
          decide (item.1 ∈ items.map (·.1)) := by
        rw [Bool.eq_iff_iff, List.any_eq_true, decide_eq_true_iff]
        simp only [List.mem_eraseDups, decide_eq_true_eq, exists_eq_right]
      rw [List.foldl_concat, ih, addToGroup, List.any_map, List.map_append, List.map_singleton,
        eraseDups_concat]
      simp only [Function.comp_def, hknown, decide_eq_true_eq, hvalues]
      by_cases hmem : item.1 ∈ items.map (·.1)
      · rw [if_pos hmem, if_pos hmem, List.map_map]
        apply List.map_congr_left
        intro k _
        by_cases hk : item.1 = k
        · simp [hk]
        · simp [hk, Ne.symm hk]
      · rw [if_neg hmem, if_neg hmem, List.map_append, List.map_singleton, if_pos rfl]
        congr 1
        · apply List.map_congr_left
          intro k hk
          have hne : item.1 ≠ k := fun heq => hmem (heq ▸ List.mem_eraseDups.1 hk)
          simp [hne]
        · have hnone : items.filter (fun x => decide (x.1 = item.1)) = [] := by
            rw [List.filter_eq_nil_iff]
            intro x hx heq
            exact hmem (List.mem_map.2 ⟨x, hx, by simpa using heq⟩)
          rw [hnone]
          rfl

end Aspect

/-! ## The table -/

/-- The text of a field name with a class. -/
theorem FieldName.eq_of_parse {text c n : String} (hparse : FieldName.parse text = ⟨c, n⟩)
    (hc : c ≠ "") : text.toList = c.toList ++ '.' :: n.toList := by
  unfold FieldName.parse at hparse
  split at hparse
  · next hsplit =>
      cases hparse
      rw [String.toList_ofList, String.toList_ofList]
      exact Text.eq_of_splitLast hsplit
  · cases hparse
    exact absurd rfl hc

namespace ConstantTable

/-- A table is made entry by entry. -/
theorem ofEntries_concat (entries : List ConstantEntry) (e : ConstantEntry) :
    ofEntries (entries ++ [e]) = (ofEntries entries).insert (FieldName.parse e.name) e.value := by
  rw [ofEntries, List.foldl_concat]
  rfl

/-- Every key in a table is that of an entry. -/
theorem exists_of_mem_ofEntries {entries : List ConstantEntry} {name : FieldName}
    (h : ∃ value, (name, value) ∈ (ofEntries entries).entries) :
    ∃ e ∈ entries, FieldName.parse e.name = name := by
  induction entries using List.reverseRecOn with
  | nil =>
      obtain ⟨_, h⟩ := h
      cases h
  | append_singleton entries e ih =>
      obtain ⟨value, hmem⟩ := h
      rw [ofEntries_concat, insert] at hmem
      split at hmem
      · obtain ⟨old, hold, heq⟩ := List.mem_map.1 hmem
        split at heq
        · cases heq
          exact ⟨e, by simp, rfl⟩
        · obtain ⟨e', he', hname⟩ := ih ⟨value, heq ▸ hold⟩
          exact ⟨e', by simp [he'], hname⟩
      · rcases List.mem_append.1 hmem with hold | hnew
        · obtain ⟨e', he', hname⟩ := ih ⟨value, hold⟩
          exact ⟨e', by simp [he'], hname⟩
        · cases List.mem_singleton.1 hnew
          exact ⟨e, by simp, rfl⟩

/-- A new key comes last. -/
theorem entries_insert_of_fresh {t : ConstantTable} {name : FieldName} {value : Constant}
    (hfresh : ¬ ∃ old, (name, old) ∈ t.entries) :
    (t.insert name value).entries = t.entries ++ [(name, value)] := by
  rw [insert, if_neg]
  rw [List.any_eq_true]
  rintro ⟨old, hold, heq⟩
  exact hfresh ⟨old.2, by rwa [← of_decide_eq_true heq]⟩

/-- A constant that is passed over wherever it stands changes nothing for the others. -/
theorem filterMap_insert {β : Type} {f : FieldName × Constant → Option β} {t : ConstantTable}
    {name : FieldName} {value : Constant} (hnone : ∀ value, f (name, value) = none) :
    (t.insert name value).entries.filterMap f = t.entries.filterMap f := by
  rw [insert]
  split
  · rw [List.filterMap_map]
    apply List.filterMap_congr
    rintro ⟨key, old⟩ _
    by_cases hkey : key = name
    · simp [hkey, hnone]
    · simp [hkey]
  · rw [List.filterMap_append, List.filterMap_cons, hnone, List.filterMap_nil, List.append_nil]

end ConstantTable

namespace Aspect

/-- A constant that stores an argument of an aspect. -/
def Stores (e : ConstantEntry) : Prop :=
  ∃ name target index, e.name = key name target index

/-- The arguments in a table, if all keys that are spelled like those of arguments are ones and
differ. -/
theorem arguments_ofEntries {entries : List ConstantEntry}
    (hstores : ∀ e ∈ entries, IsOpened e → Stores e)
    (hdistinct : ((entries.filter (IsOpened ·)).map (·.name)).Nodup) :
    (ConstantTable.ofEntries entries).entries.filterMap argument? =
      entries.filterMap fun e => argument? (FieldName.parse e.name, e.value) := by
  induction entries using List.reverseRecOn with
  | nil => rfl
  | append_singleton entries e ih =>
      have hold := ih (fun e' he' => hstores e' (by simp [he']))
        (hdistinct.sublist ((List.sublist_append_left entries [e]).filter _ |>.map _))
      rw [ConstantTable.ofEntries_concat, List.filterMap_append, ← hold, List.filterMap_cons,
        List.filterMap_nil]
      by_cases hopened : IsOpened e
      · obtain ⟨name, target, index, hname⟩ := hstores e (by simp) hopened
        have hfresh : ¬ ∃ old, (FieldName.parse e.name, old) ∈
            (ConstantTable.ofEntries entries).entries := by
          intro h
          obtain ⟨e', he', hparse⟩ := ConstantTable.exists_of_mem_ofEntries h
          have hsame : e'.name = e.name := by
            rw [hname, parse_key] at hparse
            have htext := FieldName.eq_of_parse hparse (groupKey_ne name target)
            rw [← String.toList_inj, hname, toList_key, htext]
            simp [Text.natural]
          rw [List.filter_append, List.map_append] at hdistinct
          have hopened' : IsOpened e' := by
            rw [IsOpened, hsame]
            exact hopened
          have hdisjoint := (List.nodup_append'.1 hdistinct).2.2
          exact hdisjoint (List.mem_map.2 ⟨e', by simp [he', hopened'], hsame⟩) (by simp [hopened])
        rw [ConstantTable.entries_insert_of_fresh hfresh, List.filterMap_append,
          List.filterMap_cons, List.filterMap_nil]
      · have hnone : ∀ value, argument? (FieldName.parse e.name, value) = none :=
          argument?_of_not_opening hopened
        rw [ConstantTable.filterMap_insert hnone, hnone, List.append_nil]

/-! ## The aspects of a table -/

variable {aspects : List Aspect} {entries : List ConstantEntry}

/-- The key of a legible aspect is read as its name and its target. -/
theorem Legible.readGroup? {a : Aspect} (ha : a.Legible) :
    Aspect.readGroup? (groupKey a.name a.target) = some (a.name, a.target) :=
  readGroup?_groupKey ha.name_ne ha.name_undivided ha.target

/-- Aspects with one key have one name and one target. -/
theorem Legible.eq_of_groupKey {a b : Aspect} (ha : a.Legible) (hb : b.Legible)
    (h : groupKey a.name a.target = groupKey b.name b.target) :
    (a.name, a.target) = (b.name, b.target) := by
  have hread := ha.readGroup?
  rw [h, hb.readGroup?] at hread
  exact (Option.some.inj hread).symm

/-- What a constant stores is told by its key. -/
theorem argument?_of_mem {a : Aspect} {e : ConstantEntry} (he : e ∈ a.constants) :
    ∃ x ∈ a.arguments, argument? (FieldName.parse e.name, e.value) =
      some (groupKey a.name a.target, x) := by
  obtain ⟨x, hx, rfl⟩ := List.mem_map.1 he
  exact ⟨x, hx, argument?_key _ _ _ _⟩

/-- The constants of an aspect are spelled like the key of one. -/
theorem isOpened_of_mem {a : Aspect} {e : ConstantEntry} (he : e ∈ a.constants) : IsOpened e := by
  obtain ⟨x, _, rfl⟩ := List.mem_map.1 he
  rw [IsOpened, toList_key, toList_groupKey, List.append_assoc]
  exact List.prefix_append _ _

/-- The given aspects with their constants among others. -/
structure Stored (aspects : List Aspect) (entries : List ConstantEntry) : Prop where
  distinct : (aspects.map fun a => (a.name, a.target)).Nodup
  legible : ∀ a ∈ aspects, a.Legible
  entries : (entries.filter (IsOpened ·)).Perm (aspects.flatMap constants)

/-- Stored aspects have different keys. -/
theorem Stored.eq_of_groupKey (hs : Stored aspects entries) {a b : Aspect} (ha : a ∈ aspects)
    (hb : b ∈ aspects) (h : groupKey a.name a.target = groupKey b.name b.target) : a = b :=
  List.inj_on_of_nodup_map hs.distinct ha hb
    ((hs.legible a ha).eq_of_groupKey (hs.legible b hb) h)

/-- A constant is of one aspect or spelled differently. -/
theorem Stored.cases (hs : Stored aspects entries) {e : ConstantEntry} (he : e ∈ entries) :
    (∃ a ∈ aspects, e ∈ a.constants) ∨ ¬ IsOpened e := by
  by_cases hopened : IsOpened e
  · left
    have hmem : e ∈ aspects.flatMap constants :=
      hs.entries.subset (List.mem_filter.2 ⟨he, decide_eq_true hopened⟩)
    exact List.mem_flatMap.1 hmem
  · exact Or.inr hopened

/-- The aspect of a constant is found. -/
theorem Stored.find?_eq (hs : Stored aspects entries) {a : Aspect} {e : ConstantEntry}
    (ha : a ∈ aspects) (he : e ∈ a.constants) :
    aspects.find? (fun a => e ∈ a.constants) = some a := by
  cases hfound : aspects.find? (fun a => e ∈ a.constants) with
  | none => exact absurd (decide_eq_true he) (List.find?_eq_none.1 hfound a ha)
  | some b =>
      have hb : e ∈ b.constants := by simpa using List.find?_some hfound
      obtain ⟨_, _, harg⟩ := argument?_of_mem he
      obtain ⟨_, _, harg'⟩ := argument?_of_mem hb
      have hkey := (Prod.mk.inj (Option.some.inj (harg.symm.trans harg'))).1
      rw [hs.eq_of_groupKey ha (List.mem_of_find?_eq_some hfound) hkey]

/-- The aspects that appear are the stored ones that have arguments. -/
theorem Stored.mem_appearing_iff (hs : Stored aspects entries) {a : Aspect} :
    a ∈ appearing aspects entries ↔ a ∈ aspects ∧ a.arguments ≠ [] := by
  rw [appearing, List.mem_eraseDups, List.mem_filterMap]
  constructor
  · rintro ⟨e, _, hfound⟩
    have he : e ∈ a.constants := by simpa using List.find?_some hfound
    obtain ⟨x, hx, _⟩ := List.mem_map.1 he
    exact ⟨List.mem_of_find?_eq_some hfound, List.ne_nil_of_mem hx⟩
  · rintro ⟨ha, hne⟩
    obtain ⟨x, hx⟩ := List.exists_mem_of_ne_nil _ hne
    have he : ⟨key a.name a.target x.index, x.value⟩ ∈ a.constants :=
      List.mem_map.2 ⟨x, hx, rfl⟩
    have hentry := hs.entries.symm.subset (List.mem_flatMap.2 ⟨a, ha, he⟩)
    exact ⟨_, (List.mem_filter.1 hentry).1, hs.find?_eq ha he⟩

/-- Every aspect with an argument appears, once. -/
theorem Stored.appearing_perm (hs : Stored aspects entries) :
    (appearing aspects entries).Perm (aspects.filter (·.arguments ≠ [])) := by
  have hnodup : (appearing aspects entries).Nodup := nodup_eraseDups _
  refine (List.perm_ext_iff_of_nodup hnodup (hs.distinct.of_map.filter _)).2 fun a => ?_
  rw [hs.mem_appearing_iff, List.mem_filter, decide_eq_true_iff]

/-- No two constants of the aspects have the same key. -/
theorem Stored.names_nodup (hs : Stored aspects entries) :
    ((entries.filter (IsOpened ·)).map (·.name)).Nodup := by
  rw [(hs.entries.map _).nodup_iff, List.map_flatMap, List.nodup_flatMap]
  -- the name of a constant tells its key and its number
  have hargument : ∀ {a b : Aspect} {x y : AspectArgument},
      key a.name a.target x.index = key b.name b.target y.index →
        groupKey a.name a.target = groupKey b.name b.target ∧ x.index = y.index := by
    intro a b x y hname
    have hread := argument?_key a.name a.target x.index .null
    rw [hname, argument?_key] at hread
    have heq := Prod.mk.inj (Option.some.inj hread)
    exact ⟨heq.1.symm, (AspectArgument.mk.inj heq.2).1.symm⟩
  constructor
  · intro a ha
    rw [constants, List.map_map]
    have hindices := (hs.legible a ha).indices
    rw [List.Nodup, List.pairwise_map] at hindices ⊢
    exact hindices.imp fun hne hname => hne (hargument hname).2
  · have hdistinct := hs.distinct
    rw [List.Nodup, List.pairwise_map] at hdistinct
    refine hdistinct.imp_of_mem fun {a b} ha hb hne n hn hn' => ?_
    obtain ⟨e, he, rfl⟩ := List.mem_map.1 hn
    obtain ⟨x, _, rfl⟩ := List.mem_map.1 he
    obtain ⟨e', he', hname⟩ := List.mem_map.1 hn'
    obtain ⟨y, _, rfl⟩ := List.mem_map.1 he'
    exact hne ((hs.legible a ha).eq_of_groupKey (hs.legible b hb) (hargument hname).1.symm)

/-- The arguments that constants store. -/
def argumentsOf (entries : List ConstantEntry) : List (String × AspectArgument) :=
  entries.filterMap fun e => argument? (FieldName.parse e.name, e.value)

/-- The keys of the arguments are those of the aspects that the constants are of. -/
theorem Stored.keys_eq (hs : Stored aspects entries) :
    (argumentsOf entries).map (·.1) =
      (entries.filterMap fun e => aspects.find? fun a => e ∈ a.constants).map
        fun a => groupKey a.name a.target := by
  rw [argumentsOf, List.map_filterMap, List.map_filterMap]
  apply List.filterMap_congr
  intro e he
  rcases hs.cases he with ⟨a, ha, hmem⟩ | hopened
  · obtain ⟨x, _, hargument⟩ := argument?_of_mem hmem
    rw [hargument, hs.find?_eq ha hmem]
    rfl
  · have hnone : aspects.find? (fun a => e ∈ a.constants) = none := by
      rw [List.find?_eq_none]
      intro a _ hmem
      exact hopened (isOpened_of_mem (of_decide_eq_true hmem))
    rw [argument?_of_not_opening hopened, hnone]
    rfl

/-- The constants store the arguments of all aspects. -/
theorem Stored.arguments_perm (hs : Stored aspects entries) :
    (argumentsOf entries).Perm
      (aspects.flatMap fun a => a.arguments.map fun x => (groupKey a.name a.target, x)) := by
  have hopened : argumentsOf entries = (entries.filter (IsOpened ·)).filterMap
      fun e => argument? (FieldName.parse e.name, e.value) := by
    rw [List.filterMap_filter]
    apply List.filterMap_congr
    intro e _
    by_cases h : IsOpened e
    · simp [h]
    · simp [h, argument?_of_not_opening h]
  have hconstants : ∀ a : Aspect,
      a.constants.filterMap (fun e => argument? (FieldName.parse e.name, e.value)) =
        a.arguments.map fun x => (groupKey a.name a.target, x) := by
    intro a
    rw [constants, List.filterMap_map, List.filterMap_eq_map_iff_forall_eq_some]
    intro x _
    exact argument?_key _ _ _ _
  rw [hopened]
  refine (hs.entries.filterMap _).trans ?_
  rw [List.filterMap_flatMap]
  simp only [hconstants]
  exact List.Perm.refl _

/-- The arguments in the group of an aspect are its own. -/
theorem Stored.group_perm (hs : Stored aspects entries) {a : Aspect} (ha : a ∈ aspects) :
    (((argumentsOf entries).filter (·.1 = groupKey a.name a.target)).map (·.2)).Perm
      a.arguments := by
  obtain ⟨before, after, haspects⟩ := List.append_of_mem ha
  have hothers : ∀ bs : List Aspect, bs ⊆ aspects → a ∉ bs →
      (bs.flatMap fun b => b.arguments.map fun x => (groupKey b.name b.target, x)).filter
        (·.1 = groupKey a.name a.target) = [] := by
    intro bs hbs hnot
    rw [List.filter_eq_nil_iff]
    intro item hitem heq
    obtain ⟨b, hb, hitem⟩ := List.mem_flatMap.1 hitem
    obtain ⟨x, _, rfl⟩ := List.mem_map.1 hitem
    exact hnot (hs.eq_of_groupKey (hbs hb) ha (of_decide_eq_true heq) ▸ hb)
  have hnodup := hs.distinct.of_map
  rw [haspects] at hnodup
  have hbefore : a ∉ before := fun h => (List.nodup_append'.1 hnodup).2.2 h (by simp)
  have hafter : a ∉ after := (List.nodup_cons.1 (List.nodup_append'.1 hnodup).2.1).1
  refine ((hs.arguments_perm.filter _).map _).trans ?_
  rw [haspects, List.flatMap_append, List.flatMap_cons, List.filter_append, List.filter_append,
    hothers before (by simp [haspects]) hbefore, hothers after (by simp [haspects]) hafter]
  have hown : (a.arguments.map fun x => (groupKey a.name a.target, x)).filter
      (·.1 = groupKey a.name a.target) =
        a.arguments.map fun x => (groupKey a.name a.target, x) :=
    List.filter_eq_self.2 fun item hitem => by
      obtain ⟨x, _, rfl⟩ := List.mem_map.1 hitem
      simp
  rw [hown, List.nil_append, List.append_nil, List.map_map]
  simp [Function.comp_def]

/-- Sorting by number puts arguments with different numbers in increasing order. -/
theorem pairwise_sorted {xs : List AspectArgument} (hxs : (xs.map (·.index)).Nodup) :
    (xs.mergeSort fun x y => x.index ≤ y.index).Pairwise (·.index < ·.index) := by
  have htrans : ∀ x y z : AspectArgument, decide (x.index ≤ y.index) = true →
      decide (y.index ≤ z.index) = true → decide (x.index ≤ z.index) = true :=
    fun _ _ _ hxy hyz =>
      decide_eq_true (UInt32.le_trans (of_decide_eq_true hxy) (of_decide_eq_true hyz))
  have htotal : ∀ x y : AspectArgument,
      (decide (x.index ≤ y.index) || decide (y.index ≤ x.index)) = true :=
    fun x y => by simpa using UInt32.le_total x.index y.index
  have hle := List.pairwise_mergeSort htrans htotal xs
  have hne := (((List.mergeSort_perm xs fun x y => x.index ≤ y.index).map _).nodup_iff).2 hxs
  rw [List.Nodup, List.pairwise_map] at hne
  exact hle.imp₂ (fun _ _ h h' => UInt32.lt_of_le_of_ne (of_decide_eq_true h) h') hne

/-- A group is read back as its aspect. -/
theorem Stored.ofGroup?_eq (hs : Stored aspects entries) {a : Aspect} (ha : a ∈ aspects) :
    ∃ b, ofGroup? (groupKey a.name a.target,
      ((argumentsOf entries).filter (·.1 = groupKey a.name a.target)).map (·.2)) = some b ∧
        Rebuilt a b := by
  have hperm := hs.group_perm ha
  generalize ((argumentsOf entries).filter (·.1 = groupKey a.name a.target)).map (·.2) = xs
    at hperm ⊢
  refine ⟨⟨a.name, a.target, xs.mergeSort fun x y => x.index ≤ y.index⟩, ?_, ?_⟩
  · rw [ofGroup?, (hs.legible a ha).readGroup?]
    rfl
  · exact {
      name := rfl
      target := rfl
      arguments := (List.mergeSort_perm xs _).trans hperm
      ordered := pairwise_sorted ((hperm.map _).nodup_iff.2 (hs.legible a ha).indices) }

/-- The groups of a table are those of the aspects that appear. -/
theorem Stored.groups_eq (hs : Stored aspects entries) :
    groups (ConstantTable.ofEntries entries) = (appearing aspects entries).map fun a =>
      (groupKey a.name a.target,
        ((argumentsOf entries).filter (·.1 = groupKey a.name a.target)).map (·.2)) := by
  have hstores : ∀ e ∈ entries, IsOpened e → Stores e := by
    intro e he hopened
    obtain ⟨a, _, hmem⟩ := (hs.cases he).resolve_right (not_not_intro hopened)
    obtain ⟨x, _, rfl⟩ := List.mem_map.1 hmem
    exact ⟨a.name, a.target, x.index, rfl⟩
  have hinj : ∀ a ∈ entries.filterMap (fun e => aspects.find? fun a => e ∈ a.constants),
      ∀ b ∈ entries.filterMap (fun e => aspects.find? fun a => e ∈ a.constants),
        groupKey a.name a.target = groupKey b.name b.target → a = b := by
    intro a ha b hb
    obtain ⟨_, _, hfound⟩ := List.mem_filterMap.1 ha
    obtain ⟨_, _, hfound'⟩ := List.mem_filterMap.1 hb
    exact hs.eq_of_groupKey (List.mem_of_find?_eq_some hfound) (List.mem_of_find?_eq_some hfound')
  rw [groups, arguments_ofEntries hstores hs.names_nodup]
  change (argumentsOf entries).foldl addToGroup [] = _
  rw [foldl_addToGroup, hs.keys_eq, eraseDups_map hinj, List.map_map]
  rfl

/-- The aspects come back from a table of constants in the order in which their first constants were
stored, each with its own arguments in the order of their numbers. An aspect without arguments has
no constants and does not appear. -/
theorem ofConstants_rebuilds (hdistinct : (aspects.map fun a => (a.name, a.target)).Nodup)
    (hlegible : ∀ a ∈ aspects, a.Legible)
    (hentries : (entries.filter (IsOpened ·)).Perm (aspects.flatMap constants)) :
    (appearing aspects entries).Perm (aspects.filter (·.arguments ≠ [])) ∧
      List.Forall₂ Rebuilt (appearing aspects entries)
        (ofConstants (ConstantTable.ofEntries entries)) := by
  have hs : Stored aspects entries := ⟨hdistinct, hlegible, hentries⟩
  refine ⟨hs.appearing_perm, ?_⟩
  have hall : ∀ a ∈ appearing aspects entries, a ∈ aspects :=
    fun a ha => (hs.mem_appearing_iff.1 ha).1
  rw [ofConstants, hs.groups_eq, List.filterMap_map]
  generalize appearing aspects entries = found at hall
  induction found with
  | nil => exact List.Forall₂.nil
  | cons a found ih =>
      obtain ⟨b, hb, hrebuilt⟩ := hs.ofGroup?_eq (hall a (by simp))
      rw [List.filterMap_cons_some (by exact hb)]
      exact List.Forall₂.cons hrebuilt (ih fun a' ha' => hall a' (by simp [ha']))

/-- A method that is named like the key of a field, with its arguments last first, and a class. -/
def storeAspects : List Aspect :=
  [⟨"cached", .method "Store" "get/\\field/\\._0", [⟨7, .i32 1⟩, ⟨2, .null⟩]⟩,
   ⟨"native", .class "Store", [⟨0, .bool true⟩]⟩]

/-- The constants of both with another one between them. -/
def storeConstants : List ConstantEntry :=
  [⟨"aspect/\\native/\\class/\\Store._0", .bool true⟩,
   ⟨"Store.limit", .i32 9⟩,
   ⟨"aspect/\\cached/\\class/\\Store/\\method/\\get/\\field/\\._0._7", .i32 1⟩,
   ⟨"aspect/\\cached/\\class/\\Store/\\method/\\get/\\field/\\._0._2", .null⟩]

/-- The aspects of the store can be read back. -/
theorem storeAspects_legible : ∀ a ∈ storeAspects, a.Legible := by
  simp only [storeAspects, List.forall_mem_cons, List.not_mem_nil, false_implies, implies_true,
    and_true]
  constructor
  · exact ⟨by decide, by decide +kernel, ⟨by decide, by decide +kernel, nofun⟩, by decide⟩
  · exact ⟨by decide, by decide +kernel, ⟨by decide, by decide +kernel, nofun⟩, by decide⟩

/-- The aspects of the store come back from their constants and those between them. -/
theorem ofConstants_rebuilds_store :
    (∀ a ∈ storeAspects, a.Legible) ∧
      (appearing storeAspects storeConstants).Perm (storeAspects.filter (·.arguments ≠ [])) ∧
      List.Forall₂ Rebuilt (appearing storeAspects storeConstants)
        (ofConstants (ConstantTable.ofEntries storeConstants)) :=
  ⟨storeAspects_legible,
    ofConstants_rebuilds (by decide +kernel) storeAspects_legible (by decide +kernel)⟩

end Aspect

end VaultKernel
