import VaultKernel.Proofs.Aspect.Rebuilding

/-!
# Which constants a table keeps apart

The key of a constant is read as a field name and shown again as text. Reading cuts at the last dot
and showing leaves the dot out where there is no class, so a dot in front of a text without dots is
lost. `ConstantTable.ofEntries_faithful` is the statement to read first: nothing else is lost. Two
texts are read alike only if they differ by such a dot, and constants with different keys are all
kept, in order and with their texts, exactly if no key begins with one.
-/

namespace VaultKernel

namespace FieldName

/-- A text without dots. -/
def IsBare (text : String) : Prop := '.' ∉ text.toList

/-- The first text is a dot in front of the second, which has no dots. -/
def Dots (dotted bare : String) : Prop := IsBare bare ∧ dotted = "." ++ bare

/-- One of the texts is the other one behind a dot, and there are no further dots. -/
def Clash (s t : String) : Prop := Dots s t ∨ Dots t s

instance : DecidablePred IsBare := fun text =>
  inferInstanceAs (Decidable ('.' ∉ text.toList))

instance (dotted bare : String) : Decidable (Dots dotted bare) :=
  inferInstanceAs (Decidable (IsBare bare ∧ dotted = "." ++ bare))

instance (s t : String) : Decidable (Clash s t) := inferInstanceAs (Decidable (Dots s t ∨ Dots t s))

variable {s t n c : String}

/-! ## Reading -/

/-- A text without dots is read as a name alone. -/
theorem parse_bare (hs : IsBare s) : parse s = ⟨"", s⟩ := by
  rw [parse, Text.splitLast_eq_none_iff.2 hs]

/-- A text is cut at its last dot. -/
theorem parse_append (c : String) (hn : IsBare n) : parse (c ++ "." ++ n) = ⟨c, n⟩ := by
  have hlist : (c ++ "." ++ n).toList = c.toList ++ '.' :: n.toList := by
    simp [String.toList_append]
  rw [parse, hlist, Text.splitLast_append _ hn]
  simp [String.ofList_toList]

/-- A text has no dots, or it has a last one. -/
theorem bare_or_append (s : String) : IsBare s ∨ ∃ c n, IsBare n ∧ s = c ++ "." ++ n := by
  by_cases hs : IsBare s
  · exact Or.inl hs
  · have hdot : '.' ∈ s.toList.reverse := by simpa [IsBare] using hs
    obtain ⟨back, front, hsplit, hback⟩ := List.eq_append_cons_of_mem hdot
    refine Or.inr ⟨String.ofList front.reverse, String.ofList back.reverse, ?_, ?_⟩
    · simpa [IsBare] using hback
    · have hlist : s.toList = front.reverse ++ '.' :: back.reverse := by
        rw [← List.reverse_reverse s.toList, hsplit]
        simp
      rw [← String.toList_inj, hlist]
      simp

/-- What is read is the class before the last dot, or no class. -/
theorem parse_eq_iff : parse s = ⟨c, n⟩ ↔ IsBare n ∧ (s = c ++ "." ++ n ∨ c = "" ∧ s = n) := by
  constructor
  · intro h
    rcases bare_or_append s with hs | ⟨c', n', hn', rfl⟩
    · rw [parse_bare hs] at h
      cases h
      exact ⟨hs, Or.inr ⟨rfl, rfl⟩⟩
    · rw [parse_append c' hn'] at h
      cases h
      exact ⟨hn', Or.inl rfl⟩
  · rintro ⟨hn, rfl | ⟨rfl, rfl⟩⟩
    · exact parse_append c hn
    · exact parse_bare hn

/-- A leading dot without any further one is not seen in what is read. -/
theorem Dots.parse (h : Dots s n) : FieldName.parse s = ⟨"", n⟩ := by
  obtain ⟨hn, rfl⟩ := h
  exact parse_append "" hn

/-- A dotted text has a dot. -/
theorem Dots.not_bare (h : Dots s n) : ¬ IsBare s := by
  obtain ⟨_, rfl⟩ := h
  simp [IsBare]

/-- Texts are read alike only if they differ by the dot that is lost. -/
theorem parse_inj_iff : parse s = parse t ↔ s = t ∨ Clash s t := by
  constructor
  · intro h
    obtain ⟨hn, ht⟩ := parse_eq_iff.1 (rfl : parse t = ⟨(parse t).className, (parse t).name⟩)
    obtain ⟨_, hs⟩ := parse_eq_iff.1 (h : parse s = ⟨(parse t).className, (parse t).name⟩)
    rcases hs with hs | ⟨hc, hs⟩ <;> rcases ht with ht | ⟨hc', ht⟩
    · exact Or.inl (hs.trans ht.symm)
    · exact Or.inr (Or.inl ⟨ht ▸ hn, by rw [hs, hc', ← ht]; rfl⟩)
    · exact Or.inr (Or.inr ⟨hs ▸ hn, by rw [ht, hc, ← hs]; rfl⟩)
    · exact Or.inl (hs.trans ht.symm)
  · rintro (rfl | hdots | hdots)
    · rfl
    · rw [hdots.parse, parse_bare hdots.1]
    · rw [hdots.parse, parse_bare hdots.1]

/-! ## Showing -/

/-- A text with only a leading dot is shown without it. -/
theorem text_parse_of_dots (h : Dots s n) : (parse s).text = n := by
  rw [h.parse]
  rfl

/-- Unless its only dot leads it, a text is shown as it was. -/
theorem text_parse_of_not_dots (h : ∀ n, ¬ Dots s n) : (parse s).text = s := by
  rcases bare_or_append s with hs | ⟨c, n, hn, rfl⟩
  · rw [parse_bare hs]
    rfl
  · have hc : c ≠ "" := by
      rintro rfl
      exact h n ⟨hn, rfl⟩
    rw [parse_append c hn, text, if_neg (by simpa using hc)]

/-- What is shown never begins with the dot that is lost. -/
theorem not_dots_text_parse (s n : String) : ¬ Dots (parse s).text n := by
  intro hdots
  by_cases h : ∃ m, Dots s m
  · obtain ⟨m, hm⟩ := h
    rw [text_parse_of_dots hm] at hdots
    exact hdots.not_bare hm.1
  · rw [not_exists] at h
    rw [text_parse_of_not_dots h] at hdots
    exact h n hdots

/-- The texts that are shown as they were are those whose only dot is not a leading one. -/
theorem text_parse_iff : (parse s).text = s ↔ ∀ n, ¬ Dots s n := by
  refine ⟨fun h n hdots => ?_, text_parse_of_not_dots⟩
  rw [← h] at hdots
  exact not_dots_text_parse s n hdots

end FieldName

namespace ConstantTable

open FieldName

/-! ## Keys and values -/

variable {entries : List ConstantEntry}

/-- An insertion keeps the order of the keys, and puts a new one behind them. -/
theorem keys_insert (t : ConstantTable) (name : FieldName) (value : Constant) :
    (t.insert name value).entries.map (·.1) =
      if name ∈ t.entries.map (·.1) then t.entries.map (·.1)
      else t.entries.map (·.1) ++ [name] := by
  have hknown : t.entries.any (·.1 = name) = decide (name ∈ t.entries.map (·.1)) := by
    rw [Bool.eq_iff_iff, List.any_eq_true, decide_eq_true_iff, List.mem_map]
    simp only [decide_eq_true_eq]
  rw [insert, hknown]
  by_cases hmem : name ∈ t.entries.map (·.1)
  · rw [if_pos (by simpa using hmem), if_pos hmem, List.map_map]
    apply List.map_congr_left
    intro e _
    by_cases he : e.1 = name <;> simp [he]
  · rw [if_neg (by simpa using hmem), if_neg hmem, List.map_append, List.map_singleton]

/-- The keys are the field names in the order in which they first come. -/
theorem keys_ofEntries (entries : List ConstantEntry) :
    (ofEntries entries).entries.map (·.1) = (entries.map fun e => parse e.name).eraseDups := by
  induction entries using List.reverseRecOn with
  | nil => rfl
  | append_singleton entries e ih =>
      rw [ofEntries_concat, keys_insert, ih, List.map_append, List.map_singleton,
        Aspect.eraseDups_concat]
      simp only [List.mem_eraseDups]

/-- A table of different keys has its entries in their order. -/
theorem entries_ofEntries_of_nodup (h : (entries.map fun e => parse e.name).Nodup) :
    (ofEntries entries).entries = entries.map fun e => (parse e.name, e.value) := by
  induction entries using List.reverseRecOn with
  | nil => rfl
  | append_singleton entries e ih =>
      rw [List.map_append, List.map_singleton] at h
      obtain ⟨hold, _, hdisjoint⟩ := List.nodup_append'.1 h
      have hfresh : ¬ ∃ old, (parse e.name, old) ∈ (ofEntries entries).entries := by
        intro hknown
        obtain ⟨e', he', hname⟩ := exists_of_mem_ofEntries hknown
        exact hdisjoint (List.mem_map.2 ⟨e', he', hname⟩) (by simp)
      rw [ofEntries_concat, entries_insert_of_fresh hfresh, ih hold, List.map_append,
        List.map_singleton]

/-- A value that takes the place of another one is found under the same key. -/
theorem lookup_replace (entries : List (FieldName × Constant)) (name key : FieldName)
    (value : Constant) :
    (entries.map fun e => if e.1 = name then (name, value) else e).lookup key =
      if key = name then (entries.lookup key).map fun _ => value else entries.lookup key := by
  induction entries with
  | nil => simp
  | cons e entries ih =>
      obtain ⟨k, old⟩ := e
      rw [List.map_cons, List.lookup_cons]
      by_cases hk : k = name
      · by_cases hkey : key = name
        · simp [hk, hkey]
        · have hne : (key == name) = false := by simpa using hkey
          simp [hk, hkey, List.lookup_cons, hne, ih]
      · by_cases hkey : key = k
        · simp [hk, hkey]
        · have hne : (key == k) = false := by simpa using hkey
          simp [hk, List.lookup_cons, hne, ih]

/-- What is found under a key after an insertion. -/
theorem get?_insert (t : ConstantTable) (name key : FieldName) (value : Constant) :
    (t.insert name value).get? key = if key = name then some value else t.get? key := by
  rw [insert]
  split
  · next hknown =>
      rw [get?, lookup_replace]
      by_cases hkey : key = name
      · obtain ⟨e, he, heq⟩ := List.any_eq_true.1 hknown
        have hsome : (t.entries.lookup key).isSome :=
          List.lookup_isSome_iff.2 ⟨e, he, beq_iff_eq.2 (hkey.trans (of_decide_eq_true heq).symm)⟩
        obtain ⟨old, hold⟩ := Option.isSome_iff_exists.1 hsome
        rw [if_pos hkey, if_pos hkey, hold, Option.map_some]
      · rw [if_neg hkey, if_neg hkey, get?]
  · next hnew =>
      rw [get?, List.lookup_append]
      by_cases hkey : key = name
      · have hnone : t.entries.lookup key = none := by
          rw [List.lookup_eq_none_iff]
          intro e he
          by_contra hsame
          have heq : key = e.1 := by simpa using hsame
          exact hnew (List.any_eq_true.2 ⟨e, he, decide_eq_true (heq.symm.trans hkey)⟩)
        rw [if_pos hkey, hnone, hkey]
        simp
      · have hne : (key == name) = false := by simpa using hkey
        rw [if_neg hkey, get?]
        simp [List.lookup_cons, hne]

/-- A field name stands for the last constant whose key is read as it. -/
theorem get?_ofEntries (entries : List ConstantEntry) (name : FieldName) :
    (ofEntries entries).get? name =
      ((entries.filter fun e => parse e.name = name).getLast?).map (·.value) := by
  induction entries using List.reverseRecOn with
  | nil => rfl
  | append_singleton entries e ih =>
      rw [ofEntries_concat, get?_insert, ih, List.filter_append]
      by_cases hname : parse e.name = name
      · simp [hname]
      · simp [hname, Ne.symm hname]

/-- Constants are all kept exactly if their keys are read as different field names. -/
theorem entries_ofEntries_iff :
    (ofEntries entries).entries = (entries.map fun e => (parse e.name, e.value)) ↔
      (entries.map fun e => parse e.name).Nodup := by
  refine ⟨fun h => ?_, entries_ofEntries_of_nodup⟩
  have hkeys := keys_ofEntries entries
  rw [h, List.map_map] at hkeys
  rw [show (entries.map fun e => parse e.name) = _ from hkeys]
  exact Aspect.nodup_eraseDups _

/-- Constants with different keys are all kept exactly if none is another one behind a dot. -/
theorem entries_ofEntries_iff_clash (hkeys : (entries.map (·.name)).Nodup) :
    (ofEntries entries).entries = (entries.map fun e => (parse e.name, e.value)) ↔
      entries.Pairwise fun e e' => ¬ Clash e.name e'.name := by
  have hdiffer : entries.Pairwise fun e e' => e.name ≠ e'.name := List.pairwise_map.1 hkeys
  rw [entries_ofEntries_iff, List.Nodup, List.pairwise_map]
  simp only [ne_eq, parse_inj_iff, not_or]
  exact ⟨fun h => h.imp And.right, fun h => hdiffer.and h⟩

/-- The keys of constants with different keys are shown as they were exactly if none begins with the
dot that is lost. -/
theorem shown_ofEntries_iff (hkeys : (entries.map (·.name)).Nodup) :
    ((ofEntries entries).entries.map fun e => (e.1.text, e.2)) =
        (entries.map fun e => (e.name, e.value)) ↔
      ∀ e ∈ entries, ∀ n, ¬ Dots e.name n := by
  constructor
  · intro h e he n hdots
    have hmem : (e.name, e.value) ∈ entries.map fun e => (e.name, e.value) :=
      List.mem_map_of_mem he
    rw [← h] at hmem
    obtain ⟨⟨name, value⟩, hstored, heq⟩ := List.mem_map.1 hmem
    obtain ⟨e', _, rfl⟩ := exists_of_mem_ofEntries ⟨value, hstored⟩
    have htext : (parse e'.name).text = e.name := congrArg Prod.fst heq
    rw [← htext] at hdots
    exact not_dots_text_parse e'.name n hdots
  · intro h
    have hapart : entries.Pairwise fun e e' => ¬ Clash e.name e'.name :=
      List.pairwise_of_forall_mem_list fun e he e' he' hclash =>
        hclash.elim (h e he e'.name) (h e' he' e.name)
    rw [(entries_ofEntries_iff_clash hkeys).2 hapart, List.map_map]
    apply List.map_congr_left
    intro e he
    exact congrArg (·, e.value) (text_parse_of_not_dots (h e he))

/-! ## What is kept -/

/-- A dot in front of a text without dots is all that is lost. A table has one entry for each field
name that is read, where it came first and with the value that came last. If the keys of the
constants differ, it has one for each constant exactly if no key is another one behind a dot, and
shows all of them as they were exactly if none begins with a dot that is its only one. -/
theorem ofEntries_faithful (entries : List ConstantEntry) (s t : String) :
    (parse s = parse t ↔ s = t ∨ Clash s t) ∧
    ((parse s).text = s ↔ ∀ n, ¬ Dots s n) ∧ (∀ n, Dots s n → (parse s).text = n) ∧
    (ofEntries entries).entries.map (·.1) = (entries.map fun e => parse e.name).eraseDups ∧
    (∀ name, (ofEntries entries).get? name =
      ((entries.filter fun e => parse e.name = name).getLast?).map (·.value)) ∧
    ((entries.map (·.name)).Nodup →
      ((ofEntries entries).entries = (entries.map fun e => (parse e.name, e.value)) ↔
        entries.Pairwise fun e e' => ¬ Clash e.name e'.name) ∧
      (((ofEntries entries).entries.map fun e => (e.1.text, e.2)) =
          (entries.map fun e => (e.name, e.value)) ↔
        ∀ e ∈ entries, ∀ n, ¬ Dots e.name n)) :=
  ⟨parse_inj_iff, text_parse_iff, fun _ => text_parse_of_dots, keys_ofEntries entries,
    get?_ofEntries entries,
    fun hkeys => ⟨entries_ofEntries_iff_clash hkeys, shown_ofEntries_iff hkeys⟩⟩

/-- A key with dots in its midst, one without, and one behind a dot that nothing clashes with. -/
theorem ofEntries_faithful_apart :
    ∃ entries : List ConstantEntry, (entries.map (·.name)) = ["a..b", "bare", ".x"] ∧
      (ofEntries entries).entries = (entries.map fun e => (parse e.name, e.value)) ∧
      (ofEntries entries).entries.map (·.1.text) = ["a..b", "bare", "x"] := by
  refine ⟨[⟨"a..b", .i32 1⟩, ⟨"bare", .null⟩, ⟨".x", .bool true⟩], rfl, ?_, by decide⟩
  obtain ⟨_, _, _, _, _, hdistinct⟩ :=
    ofEntries_faithful [⟨"a..b", .i32 1⟩, ⟨"bare", .null⟩, ⟨".x", .bool true⟩] "a..b" "bare"
  exact (hdistinct (by decide)).1.2 (by decide)

/-- The second constant takes the place of the first, whose key is another text. -/
theorem ofEntries_overwrites :
    (ofEntries [⟨".x", .i32 1⟩, ⟨"x", .i32 2⟩]).entries = [(⟨"", "x"⟩, .i32 2)] ∧
      parse ".x" = parse "x" ∧ (parse ".x").text = "x" ∧
      ¬ ∀ entries : List ConstantEntry, (entries.map (·.name)).Nodup →
        ((ofEntries entries).entries.map fun e => (e.1.text, e.2)) =
          entries.map fun e => (e.name, e.value) := by
  refine ⟨by decide, by decide, by decide, fun h => ?_⟩
  exact absurd (h [⟨".x", .i32 1⟩, ⟨"x", .i32 2⟩] (by decide)) (by decide)

end ConstantTable

end VaultKernel
