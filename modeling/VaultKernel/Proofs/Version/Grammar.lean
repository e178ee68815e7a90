import VaultKernel.Proofs.Text.Numeral
import VaultKernel.Version.Parse

/-!
# The grammar of version texts

`Spells text v` says that a text is a version text and stands for the version `v`: one to three
numbers, the pre-release identifiers after a hyphen if there are any, and the build identifiers
after a plus sign if there are any. Nothing here refers to how such texts are read. A version that
is spelled by some text is `WellFormed`, and then its written form spells it with all three numbers
(`WellFormed.spelling_text`).
-/

namespace VaultKernel.Version

/-! ## Texts -/

/-- The text is a decimal number without leading zeros that is not too large. -/
structure Numeral (cs : List Char) (n : Nat) : Prop where
  /-- A digit or more, and nothing else, with this value. -/
  value : Text.natural? cs = some n
  unpadded : cs.head? = some '0' → cs = ['0']
  fits : n < 2 ^ 64

/-- One to three numbers with dots between them; those that are missing are zero. -/
inductive Numbers : (count : Nat) → List Char → (major minor patch : Nat) → Prop where
  | one {a : List Char} {major : Nat} : Numeral a major → Numbers 1 a major 0 0
  | two {a b : List Char} {major minor : Nat} : Numeral a major → Numeral b minor →
      Numbers 2 (a ++ '.' :: b) major minor 0
  | three {a b d : List Char} {major minor patch : Nat} : Numeral a major → Numeral b minor →
      Numeral d patch → Numbers 3 (a ++ '.' :: (b ++ '.' :: d)) major minor patch

/-- A letter, digit or hyphen or more, and nothing else. In a pre-release a number has no leading
zeros. -/
structure IsIdentifier (part : Part) (cs : List Char) : Prop where
  nonempty : cs ≠ []
  chars : ∀ c ∈ cs, c.isAlphanum ∨ c = '-'
  unpadded : part = .preRelease → (∀ c ∈ cs, Text.isDigit c) → cs.head? = some '0' → cs = ['0']

/-- Nothing for no identifiers, or the identifiers with dots between them after the mark. -/
inductive Tagged (mark : Char) (part : Part) : List Char → List String → Prop where
  | absent : Tagged mark part [] []
  | present {ids : List String} : ids ≠ [] → (∀ id ∈ ids, IsIdentifier part id.toList) →
      Tagged mark part (mark :: (Text.join "." ids).toList) ids

/-- The text has `count` numbers and stands for the version. -/
def SpellsWith (count : Nat) (text : List Char) (v : Version) : Prop :=
  ∃ numbers pre build, text = numbers ++ (pre ++ build) ∧
    Numbers count numbers v.major v.minor v.patch ∧ Tagged '-' .preRelease pre v.preRelease ∧
    Tagged '+' .build build v.build

/-- The text is a version text and stands for the version. -/
def Spells (text : List Char) (v : Version) : Prop := ∃ count, SpellsWith count text v

/-! ## Versions that are spelled -/

/-- Numbers and identifiers that version texts can have. -/
structure WellFormed (v : Version) : Prop where
  major : v.major < 2 ^ 64
  minor : v.minor < 2 ^ 64
  patch : v.patch < 2 ^ 64
  preRelease : ∀ id ∈ v.preRelease, IsIdentifier .preRelease id.toList
  build : ∀ id ∈ v.build, IsIdentifier .build id.toList

variable {v : Version} {text cs : List Char} {count major minor patch n : Nat} {mark : Char}
  {part : Part} {ids : List String}

/-- Each number of a version fits in 64 bits. -/
theorem Numbers.fits (h : Numbers count cs major minor patch) :
    major < 2 ^ 64 ∧ minor < 2 ^ 64 ∧ patch < 2 ^ 64 := by
  cases h with
  | one ha => exact ⟨ha.fits, by decide, by decide⟩
  | two ha hb => exact ⟨ha.fits, hb.fits, by decide⟩
  | three ha hb hd => exact ⟨ha.fits, hb.fits, hd.fits⟩

/-- The identifiers of a part are identifiers. -/
theorem Tagged.isIdentifier (h : Tagged mark part cs ids) :
    ∀ id ∈ ids, IsIdentifier part id.toList := by
  cases h with
  | absent => simp
  | present _ hids => exact hids

/-- A version that a text stands for is well formed. -/
theorem SpellsWith.wellFormed (h : SpellsWith count text v) : WellFormed v := by
  obtain ⟨numbers, pre, build, _, hnumbers, hpre, hbuild⟩ := h
  obtain ⟨hmajor, hminor, hpatch⟩ := hnumbers.fits
  exact ⟨hmajor, hminor, hpatch, hpre.isIdentifier, hbuild.isIdentifier⟩

/-! ## The written form -/

/-- The digits of a number have no leading zeros. -/
theorem Numeral.digits (hn : n < 2 ^ 64) : Numeral (Text.digits n) n := by
  refine ⟨Text.natural?_digits n, fun hhead => ?_, hn⟩
  rw [Text.eq_zero_of_head_digits hhead, Text.digits, if_pos (by decide)]
  rfl

/-- The text of a part is one of the grammar. -/
theorem Tagged.tail {text : String} (hmark : text.toList = [mark])
    (h : ∀ id ∈ ids, IsIdentifier part id.toList) :
    Tagged mark part (tail text ids).toList ids := by
  cases ids with
  | nil => exact .absent
  | cons id ids =>
      have htail : (Version.tail text (id :: ids)).toList =
          mark :: (Text.join "." (id :: ids)).toList := by
        rw [Version.tail, List.isEmpty_cons, if_neg Bool.false_ne_true, String.toList_append, hmark,
          List.singleton_append]
      rw [htail]
      exact .present (List.cons_ne_nil id ids) h

/-- The text of a version is spelled from its parts. -/
theorem toList_text (v : Version) :
    v.text.toList =
      Text.digits v.major ++ '.' :: (Text.digits v.minor ++ '.' :: Text.digits v.patch) ++
        ((tail "-" v.preRelease).toList ++ (tail "+" v.build).toList) := by
  simp [text, Text.natural, String.toList_append]

/-- A version is spelled by its written form, with all three numbers. -/
theorem WellFormed.spelling_text (h : WellFormed v) : SpellsWith 3 v.text.toList v :=
  ⟨_, _, _, toList_text v, .three (.digits h.major) (.digits h.minor) (.digits h.patch),
    .tail (by decide) h.preRelease, .tail (by decide) h.build⟩

end VaultKernel.Version
