import VaultKernel.Aspect
import VaultKernel.Proofs.Text.Numeral
import VaultKernel.Proofs.Text.Split

/-!
# Keys of aspects

The key of an argument is read back as the name and the target of its aspect and the number of the
argument (`argument?_key`, `readGroup?_groupKey`), whatever the method of the target is called: only
the name of the aspect and the names of classes and fields must be free of dividers.
-/

namespace VaultKernel

open Text

/-- A text without the divider of keys in it. -/
def Aspect.Undivided (text : String) : Prop := ¬ Aspect.divider.toList <:+: text.toList

instance : DecidablePred Aspect.Undivided := fun text =>
  inferInstanceAs (Decidable (¬ Aspect.divider.toList <:+: text.toList))

/-- A target whose names can be told apart in a key. -/
structure AspectTarget.Legible (target : AspectTarget) : Prop where
  class_ne : target.className ≠ ""
  class_undivided : Aspect.Undivided target.className
  field_undivided : ∀ c field, target = .field c field → Aspect.Undivided field

namespace Aspect

/-- What stands in a key after the marker of the class. -/
def targetText : AspectTarget → List Char
  | .class c => c.toList
  | .method c method => c.toList ++ ((marker "method").toList ++ method.toList)
  | .field c field => c.toList ++ ((marker "field").toList ++ field.toList)

/-- The key of a group is spelled from the name of the aspect and the target. -/
theorem toList_groupKey (name : String) (target : AspectTarget) :
    (groupKey name target).toList =
      opening.toList ++ (name.toList ++ ((marker "class").toList ++ targetText target)) := by
  cases target <;> simp [groupKey, targetText, AspectTarget.className]

/-- No group has an empty key. -/
theorem groupKey_ne (name : String) (target : AspectTarget) : groupKey name target ≠ "" := by
  intro h
  have htext := toList_groupKey name target
  rw [h] at htext
  simp [opening] at htext

/-- A marker is a word between its delimiters. -/
theorem toList_marker (word : String) :
    (marker word).toList = '/' :: '\\' :: (word.toList ++ ['/', '\\']) := by
  simp [marker, divider]

/-- A text that is free of dividers can be cut off in front of a marker. -/
theorem splitAt_marker (word : String) {front : String} (hfront : Undivided front)
    (back : List Char) :
    splitAt (marker word).toList (front.toList ++ ((marker word).toList ++ back)) =
      some (front.toList, back) := by
  rw [toList_marker]
  exact splitAt_append_of_undivided (by decide) hfront

/-- A text with a marker in it has a divider in it. -/
theorem Undivided.not_marker {text : String} (htext : Undivided text) (word : String) :
    ¬ (marker word).toList <:+: text.toList := by
  rw [toList_marker]
  exact fun h => htext (List.IsInfix.trans ⟨[], word.toList ++ ['/', '\\'], rfl⟩ h)

/-- The marker of a field hides no marker of a method. -/
theorem not_method_in_field {c field : String} (hc : Undivided c) (hfield : Undivided field) :
    ¬ (marker "method").toList <:+: targetText (.field c field) := by
  have htext : targetText (.field c field) =
      c.toList ++ '/' :: (['\\', 'f', 'i', 'e', 'l', 'd'] ++ '/' :: '\\' :: field.toList) := by
    rw [targetText, toList_marker]
    rfl
  intro h
  rw [toList_marker, htext] at h
  rcases List.infix_cons_iff.1 (infix_of_undivided (x := '/') (y := '\\') (by decide) hc h) with
    hhere | hafter
  · simp [List.cons_prefix_cons] at hhere
  · have hsecond := infix_of_undivided (x := '/') (y := '\\') (by decide) (by decide) hafter
    -- only the last divider of the marker is left, or what comes after it
    rcases List.infix_cons_iff.1 hsecond with hhere | hlater
    · obtain ⟨rest, hrest⟩ := (List.cons_prefix_cons.1 (List.cons_prefix_cons.1 hhere).2).2
      exact hfield ⟨"method".toList, rest, hrest⟩
    · rcases List.infix_cons_iff.1 hlater with hhere | hinside
      · simp [List.cons_prefix_cons] at hhere
      · exact hfield (List.IsInfix.trans ⟨[], "method".toList ++ ['/', '\\'], rfl⟩ hinside)

/-- The text of a legible target is read as the target. -/
theorem target?_targetText {target : AspectTarget} (ht : target.Legible) :
    target? (targetText target) = some target := by
  cases target with
  | «class» c =>
      have hc : Undivided c := ht.class_undivided
      rw [target?, targetText, splitAt_eq_none (hc.not_marker _)]
      dsimp only
      rw [splitAt_eq_none (hc.not_marker _)]
      have hcontains : contains divider.toList c.toList = false := by
        rw [contains, splitAt_eq_none hc]
        rfl
      simp [hcontains]
  | method c method =>
      have hc : Undivided c := ht.class_undivided
      rw [target?, targetText, splitAt_marker _ hc]
      simp
  | field c field =>
      have hc : Undivided c := ht.class_undivided
      rw [target?, splitAt_eq_none (not_method_in_field hc (ht.field_undivided c field rfl)),
        targetText]
      dsimp only
      rw [splitAt_marker _ hc]
      simp

/-- The key of a group is read as its name and target. -/
theorem readGroup?_groupKey {name : String} {target : AspectTarget} (hname : name ≠ "")
    (hundivided : Undivided name) (ht : target.Legible) :
    readGroup? (groupKey name target) = some (name, target) := by
  rw [readGroup?, toList_groupKey, after?_append]
  simp only [Option.bind_eq_bind, Option.bind_some]
  rw [splitAt_marker _ hundivided]
  simp only [Option.bind_some, target?_targetText ht]
  have hne : ¬ (name.toList.isEmpty = true ∨ target.className.isEmpty = true) := by
    simp [hname, ht.class_ne]
  rw [if_neg hne, String.ofList_toList]

/-! ## Arguments -/

/-- The key of an argument is that of its group, and its number after a dot. -/
theorem toList_key (name : String) (target : AspectTarget) (index : UInt32) :
    (key name target index).toList =
      (groupKey name target).toList ++ '.' :: '_' :: digits index.toNat := by
  simp [key, natural]

/-- The last dot of a key is the one in front of the number. -/
theorem parse_key (name : String) (target : AspectTarget) (index : UInt32) :
    FieldName.parse (key name target index) =
      ⟨groupKey name target, "_" ++ natural index.toNat⟩ := by
  have hdot : '.' ∉ '_' :: digits index.toNat := by
    intro h
    rcases List.mem_cons.1 h with h | h
    · cases h
    · exact digit_ne_dot h rfl
  have hnumber : String.ofList ('_' :: digits index.toNat) = "_" ++ natural index.toNat := by
    rw [natural, ← String.ofList_append]
    rfl
  rw [FieldName.parse, toList_key, splitLast_append _ hdot]
  dsimp only
  rw [String.ofList_toList, hnumber]

/-- The number of an argument is read back. -/
theorem index?_text (index : UInt32) : index? ("_" ++ natural index.toNat) = some index := by
  have htext : ("_" ++ natural index.toNat).toList = ['_'] ++ digits index.toNat := by
    simp [natural]
  have hbound : index.toNat < 4294967296 := index.toNat_lt
  rw [index?, htext, after?_append]
  simp [unsigned?_digits, Option.filter, hbound]

/-- An argument is read back from its constant. -/
theorem argument?_key (name : String) (target : AspectTarget) (index : UInt32) (value : Constant) :
    argument? (FieldName.parse (key name target index), value) =
      some (groupKey name target, ⟨index, value⟩) := by
  rw [parse_key, argument?]
  dsimp only
  rw [toList_groupKey, after?_append, index?_text]
  rfl

/-- A constant under any other key is no argument. -/
theorem argument?_of_not_opening {text : String} (h : ¬ opening.toList <+: text.toList)
    (value : Constant) : argument? (FieldName.parse text, value) = none := by
  have hclass : (FieldName.parse text).className.toList <+: text.toList := by
    unfold FieldName.parse
    split
    · next hsplit =>
        rw [String.toList_ofList, eq_of_splitLast hsplit]
        exact List.prefix_append _ _
    · exact List.nil_prefix
  have hafter : after? opening.toList (FieldName.parse text).className.toList = none := by
    rw [Option.eq_none_iff_forall_ne_some]
    intro rest hrest
    exact h (List.IsPrefix.trans ⟨rest, (after?_eq_some_iff.1 hrest).symm⟩ hclass)
  rw [argument?]
  dsimp only
  rw [hafter]
  rfl

end Aspect

end VaultKernel
