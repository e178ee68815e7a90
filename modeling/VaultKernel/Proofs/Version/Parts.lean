import Mathlib.Data.List.TakeWhile
import VaultKernel.Proofs.Outcome
import VaultKernel.Proofs.Text.Split
import VaultKernel.Proofs.Version.Grammar

/-!
# Reading the parts of a version text

Each reader takes the longest beginning that can belong to its part, so it takes exactly a part of
the grammar that is followed by something else: `Stops` says what may follow. For each part there is
a lemma that what is read belongs to the grammar, and one that what belongs to it is read.
-/

namespace VaultKernel.Version

variable {part before : Part} {cs ds rest : List Char} {value n : Nat} {ids : List String}
  {p : Char → Bool} {mark : Char}

/-- The text does not go on with such a character. -/
def Stops (p : Char → Bool) (rest : List Char) : Prop := ∀ c ∈ rest.head?, p c = false

/-- The longest beginning of a kind ends where the text stops being of that kind. -/
theorem takeWhile_append (hds : ∀ c ∈ ds, p c) (hrest : Stops p rest) :
    (ds ++ rest).takeWhile p = ds := by
  have hnone : rest.takeWhile p = [] := by
    cases rest with
    | nil => rfl
    | cons c rest => exact List.takeWhile_cons_of_neg (by simp [hrest c rfl])
  rw [List.takeWhile_append_of_pos hds, hnone, List.append_nil]

/-- An empty text does not go on. -/
theorem Stops.nil : Stops p [] := by simp [Stops]

/-- A text stops where its next character is not of the kind. -/
theorem Stops.cons {c : Char} (hc : p c = false) : Stops p (c :: rest) := by simpa [Stops] using hc

/-- Dropping a kind of characters stops at another kind. -/
theorem Stops.dropWhile (p : Char → Bool) (cs : List Char) : Stops p (cs.dropWhile p) := by
  intro c hc
  have hhead := List.head?_dropWhile_not p cs
  rw [Option.mem_def.1 hc] at hhead
  simpa using hhead

/-- Identifiers begin with their mark, and without any the text goes on at once. -/
theorem Tagged.stops {text : List Char} (h : Tagged mark part text ids) (hmark : p mark = false)
    (hrest : Stops p rest) : Stops p (text ++ rest) := by
  cases h with
  | absent => exact hrest
  | present => exact .cons hmark

/-- An optional part begins with its mark, if it begins at all. -/
theorem Tagged.stops_end {text : List Char} (h : Tagged mark part text ids)
    (hmark : p mark = false) : Stops p text := by
  have hstops := h.stops hmark .nil
  rwa [List.append_nil] at hstops

/-! ## Numbers -/

/-- A number ends where no digit follows. -/
theorem numberFrom_of_stops (hrest : Stops Text.isDigit rest) :
    numberFrom part n rest = .ok (n, rest) := by
  cases rest with
  | nil => rfl
  | cons c rest =>
      have hc : Text.digitValue? c = none := by simpa [Text.isDigit] using hrest c rfl
      rw [numberFrom, hc]

/-- Digits are read as long as the number is not zero so far and stays within the limit. -/
theorem numberFrom_append (hvalue : Text.naturalFrom value ds = some n) (hfits : n < 2 ^ 64)
    (hzero : value = 0 → ds = []) (hrest : Stops Text.isDigit rest) :
    numberFrom part value (ds ++ rest) = .ok (n, rest) := by
  induction ds generalizing value with
  | nil =>
      cases Option.some.inj hvalue
      exact numberFrom_of_stops hrest
  | cons c ds ih =>
      obtain ⟨d, hd, hmore⟩ := Option.bind_eq_some_iff.1 hvalue
      have hle := Text.le_of_naturalFrom hmore
      have hne : value ≠ 0 := fun h => by cases hzero h
      have hlimit : ¬ numberLimit < 10 * value + d := by
        rw [numberLimit]
        omega
      rw [List.cons_append, numberFrom, hd]
      simp only [if_neg hne, if_neg hlimit]
      exact ih hmore (fun h => by omega)

/-- A number that is read consists of digits, and fits into 64 bits. -/
theorem of_numberFrom (h : numberFrom part value cs = .ok (n, rest)) :
    ∃ ds, cs = ds ++ rest ∧ Text.naturalFrom value ds = some n ∧ (value = 0 → ds = []) ∧
      (value < 2 ^ 64 → n < 2 ^ 64) := by
  induction cs generalizing value with
  | nil =>
      cases h
      exact ⟨[], rfl, rfl, fun _ => rfl, id⟩
  | cons c cs ih =>
      rw [numberFrom] at h
      cases hd : Text.digitValue? c with
      | none =>
          rw [hd] at h
          cases h
          exact ⟨[], rfl, rfl, fun _ => rfl, id⟩
      | some d =>
          simp only [hd] at h
          split at h
          · cases h
          split at h
          · cases h
          next hne hlimit =>
            obtain ⟨ds, rfl, hmore, _, hfits⟩ := ih h
            rw [numberLimit] at hlimit
            refine ⟨c :: ds, rfl, ?_, fun hzero => absurd hzero hne, fun _ => hfits (by omega)⟩
            rw [Text.naturalFrom, hd]
            exact hmore

/-- A numeral is read as its number. -/
theorem number_append (hds : Numeral ds n) (hrest : Stops Text.isDigit rest) :
    number part (ds ++ rest) = .ok (n, rest) := by
  obtain ⟨hvalue, hunpadded, hfits⟩ := hds
  cases ds with
  | nil => cases hvalue
  | cons c ds =>
      obtain ⟨d, hd, hmore⟩ := Option.bind_eq_some_iff.1 hvalue
      rw [Nat.mul_zero, Nat.zero_add] at hmore
      rw [List.cons_append, number, hd]
      refine numberFrom_append hmore hfits (fun hzero => ?_) hrest
      subst hzero
      cases Text.eq_zero_char_of_digitValue? hd
      exact (List.cons.inj (hunpadded rfl)).2

/-- A number that is read is a numeral of the grammar. -/
theorem of_number (h : number part cs = .ok (n, rest)) : ∃ ds, cs = ds ++ rest ∧ Numeral ds n := by
  cases cs with
  | nil => cases h
  | cons c cs =>
      rw [number] at h
      cases hd : Text.digitValue? c with
      | none =>
          rw [hd] at h
          cases h
      | some d =>
          rw [hd] at h
          obtain ⟨ds, rfl, hmore, hzero, hfits⟩ := of_numberFrom h
          have hdigit := Text.digitValue?_lt hd
          refine ⟨c :: ds, rfl, ?_, fun hhead => ?_, hfits (by omega)⟩
          · show Text.naturalFrom 0 (c :: ds) = some n
            rw [Text.naturalFrom, hd]
            simpa using hmore
          · cases Option.some.inj hhead
            rw [hzero (Option.some.inj hd).symm]

/-- A dot is read exactly where there is one. -/
theorem dot_eq_ok_iff : dot part cs = .ok rest ↔ cs = '.' :: rest := by
  cases cs with
  | nil => simp [dot]
  | cons c cs =>
      by_cases hc : c = '.'
      · subst hc
        simp [dot]
      · rw [dot]
        · simp [hc]
        · simpa using hc

/-! ## Identifiers -/

/-- A segment passes its check if it is not empty and, in a pre-release, no number with zeros in
front. -/
theorem checkSegment_eq_ok_iff : checkSegment part cs = .ok () ↔
    cs ≠ [] ∧
      (part = .preRelease → (∀ c ∈ cs, Text.isDigit c) → cs.head? = some '0' → cs = ['0']) := by
  rw [checkSegment, ← List.all_eq_true]
  cases cs with
  | nil => simp
  | cons c cs =>
      rw [List.isEmpty_cons, if_neg Bool.false_ne_true]
      split
      · next hpadded =>
          obtain ⟨hpart, hlong, hhead, hdigits⟩ := hpadded
          refine ⟨nofun, fun ⟨_, hunpadded⟩ => ?_⟩
          rw [hunpadded hpart hdigits hhead] at hlong
          exact absurd hlong (by decide)
      · next hpadded =>
          refine ⟨fun _ => ⟨List.cons_ne_nil c cs, fun hpart hdigits hhead => ?_⟩, fun _ => rfl⟩
          have hshort : cs = [] := by
            by_contra hcs
            have hlength := List.length_pos_iff.2 hcs
            exact hpadded ⟨hpart, by rw [List.length_cons]; omega, hhead, hdigits⟩
          rw [hshort, Option.some.inj hhead]

/-- An identifier of the grammar is one that passes its check. -/
theorem isIdentifier_iff :
    IsIdentifier part cs ↔ checkSegment part cs = .ok () ∧ ∀ c ∈ cs, isIdentifierChar c := by
  rw [checkSegment_eq_ok_iff]
  simp only [isIdentifierChar, Bool.or_eq_true, decide_eq_true_eq]
  exact ⟨fun ⟨hne, hchars, hunpadded⟩ => ⟨⟨hne, hunpadded⟩, hchars⟩,
    fun ⟨⟨hne, hunpadded⟩, hchars⟩ => ⟨hne, hchars, hunpadded⟩⟩

/-- No identifier has a dot in it. -/
theorem IsIdentifier.no_dot (h : IsIdentifier part cs) : '.' ∉ cs :=
  fun hdot => absurd (h.chars '.' hdot) (by decide)

/-- The characters of identifiers with dots between them. -/
def inIdentifiers (c : Char) : Bool := isIdentifierChar c || c = '.'

/-- Identifiers with dots between them have no other characters. -/
theorem inIdentifiers_join (hids : ∀ id ∈ ids, IsIdentifier part id.toList) :
    ∀ c ∈ (Text.join "." ids).toList, inIdentifiers c := by
  have hid : ∀ id ∈ ids, ∀ c ∈ id.toList, inIdentifiers c := by
    intro id hid c hc
    rw [inIdentifiers, (isIdentifier_iff.1 (hids id hid)).2 c hc, Bool.true_or]
  cases ids with
  | nil => simp [Text.join]
  | cons id ids =>
      intro c hc
      rw [Text.toList_join, List.mem_append, List.mem_flatMap] at hc
      rcases hc with hc | ⟨other, hother, hc⟩
      · exact hid id (by simp) c hc
      · rcases List.mem_append.1 hc with hc | hc
        · cases List.mem_singleton.1 hc
          decide
        · exact hid other (by simp [hother]) c hc

/-- The longest beginning with such characters is cut at the dots and its pieces are checked. -/
theorem identifiers_eq_ok_iff : identifiers part cs = .ok (ids, rest) ↔
    (∀ s ∈ Text.pieces '.' (cs.takeWhile inIdentifiers), checkSegment part s = .ok ()) ∧
      (Text.pieces '.' (cs.takeWhile inIdentifiers)).map String.ofList = ids ∧
      cs.drop (cs.takeWhile inIdentifiers).length = rest := by
  rw [← forM_eq_ok]
  show (_ >>= fun _ => _) = _ ↔ _
  rw [bind_eq_ok]
  constructor
  · rintro ⟨_, hchecks, heq⟩
    cases heq
    exact ⟨hchecks, rfl, rfl⟩
  · rintro ⟨hchecks, rfl, rfl⟩
    exact ⟨(), hchecks, rfl⟩

/-- Identifiers with dots between them are read. -/
theorem identifiers_append (hsome : ids ≠ []) (hids : ∀ id ∈ ids, IsIdentifier part id.toList)
    (hrest : Stops inIdentifiers rest) :
    identifiers part ((Text.join "." ids).toList ++ rest) = .ok (ids, rest) := by
  rw [identifiers_eq_ok_iff, takeWhile_append (inIdentifiers_join hids) hrest,
    Text.pieces_join (by decide) hsome fun id hid => (hids id hid).no_dot]
  refine ⟨fun cs hcs => ?_, by simp, List.drop_left⟩
  obtain ⟨id, hid, rfl⟩ := List.mem_map.1 hcs
  exact (isIdentifier_iff.1 (hids id hid)).1

/-- Identifiers that are read are identifiers of the grammar, with dots between them. -/
theorem of_identifiers (h : identifiers part cs = .ok (ids, rest)) :
    ids ≠ [] ∧ (∀ id ∈ ids, IsIdentifier part id.toList) ∧
      cs = (Text.join "." ids).toList ++ rest := by
  obtain ⟨hchecks, rfl, rfl⟩ := identifiers_eq_ok_iff.1 h
  refine ⟨?_, ?_, ?_⟩
  · simpa using Text.pieces_ne_nil '.' (cs.takeWhile inIdentifiers)
  · intro id hid
    obtain ⟨piece, hpiece, rfl⟩ := List.mem_map.1 hid
    rw [String.toList_ofList]
    refine isIdentifier_iff.2 ⟨hchecks piece hpiece, fun c hc => ?_⟩
    obtain ⟨hdot, hmem⟩ := Text.of_mem_pieces hpiece c hc
    have hc : inIdentifiers c := List.mem_takeWhile_imp hmem
    simpa [inIdentifiers, hdot] using hc
  · rw [Text.join_pieces (by decide)]
    exact (List.prefix_iff_eq_append.1 (List.takeWhile_prefix inIdentifiers)).symm

/-! ## Identifiers after a mark -/

/-- An optional part of the grammar is read. -/
theorem tagged_append {text : List Char} (before : Part) (h : Tagged mark part text ids)
    (hrest : Stops inIdentifiers rest) (hmark : Stops (· = mark) rest) :
    ∃ last, tagged mark part before (text ++ rest) = .ok (ids, rest, last) := by
  cases h with
  | absent =>
      refine ⟨before, ?_⟩
      cases rest with
      | nil => rfl
      | cons c rest =>
          have hc : c ≠ mark := by simpa using hmark c rfl
          rw [List.nil_append, tagged, if_neg hc]
  | present hsome hids =>
      refine ⟨part, ?_⟩
      rw [List.cons_append, tagged, if_pos rfl]
      exact bind_eq_ok.2 ⟨_, identifiers_append hsome hids hrest, rfl⟩

/-- An optional part that is read belongs to the grammar. -/
theorem of_tagged {last : Part} (h : tagged mark part before cs = .ok (ids, rest, last)) :
    ∃ text, cs = text ++ rest ∧ Tagged mark part text ids := by
  cases cs with
  | nil =>
      cases h
      exact ⟨[], rfl, .absent⟩
  | cons c cs =>
      rw [tagged] at h
      split at h
      · next hc =>
          obtain ⟨⟨ids', rest'⟩, hread, heq⟩ := bind_eq_ok.1 h
          cases heq
          obtain ⟨hsome, hids, rfl⟩ := of_identifiers hread
          exact ⟨c :: (Text.join "." ids).toList, rfl, hc ▸ .present hsome hids⟩
      · cases h
        exact ⟨[], rfl, .absent⟩

end VaultKernel.Version
