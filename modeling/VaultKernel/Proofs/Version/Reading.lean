import VaultKernel.Failure.Basic
import VaultKernel.Proofs.Version.Parts

/-!
# Which texts are versions

A version text may leave out numbers, and the reader fills them in by counting dots in front of the
first hyphen or plus sign before it checks anything. `read_exact` is the statement to read first:
the texts that are read are exactly those of the grammar, with the versions that they stand for, and
the written form of a version that was read is read as this version again. It rests on
`parseComplete_eq_ok_iff`, for texts with all three numbers, and `spellsWith_pad_iff`: filling in
turns no other text into a version and changes the meaning of none.
-/

namespace VaultKernel.Version

variable {v : Version} {cs rest numbers : List Char} {ids : List String} {p : Char → Bool}
  {count major minor patch n : Nat}

/-! ## Texts with all three numbers -/

/-- No other part begins where one ends. -/
theorem stops_tagged {pre build : List Char} {ids' : List String}
    (hpre : Tagged '-' .preRelease pre ids) (hbuild : Tagged '+' .build build ids')
    (hminus : p '-' = false) (hplus : p '+' = false) : Stops p (pre ++ build) :=
  hpre.stops hminus (hbuild.stops_end hplus)

/-- A complete version of the grammar is read. -/
theorem parseComplete_of_spells (h : SpellsWith 3 cs v) : parseComplete cs = .ok v := by
  obtain ⟨numbers, pre, build, rfl, hnumbers, hpre, hbuild⟩ := h
  obtain ⟨major, minor, patch, preRelease, buildIds⟩ := v
  cases hnumbers with
  | @three a b d _ _ _ ha hb hd =>
  have hdot : ∀ {later}, Stops Text.isDigit ('.' :: later) := .cons (by decide)
  have hend : Stops Text.isDigit (pre ++ build) := stops_tagged hpre hbuild (by decide) (by decide)
  obtain ⟨last, hpreRead⟩ := tagged_append .patch hpre
    (hbuild.stops_end (by decide)) (hbuild.stops_end (by decide))
  obtain ⟨last', hbuildRead⟩ := tagged_append last hbuild .nil .nil
  rw [List.append_nil] at hbuildRead
  simp only [List.append_assoc, List.cons_append]
  unfold parseComplete
  rw [if_neg (by simp)]
  refine bind_eq_ok.2 ⟨_, number_append ha hdot, bind_eq_ok.2 ⟨_, dot_eq_ok_iff.2 rfl, ?_⟩⟩
  refine bind_eq_ok.2 ⟨_, number_append hb hdot, bind_eq_ok.2 ⟨_, dot_eq_ok_iff.2 rfl, ?_⟩⟩
  refine bind_eq_ok.2 ⟨_, number_append hd hend, bind_eq_ok.2 ⟨_, hpreRead, ?_⟩⟩
  exact bind_eq_ok.2 ⟨_, hbuildRead, rfl⟩

/-- What is read as a complete version belongs to the grammar. -/
theorem spells_of_parseComplete (h : parseComplete cs = .ok v) : SpellsWith 3 cs v := by
  unfold parseComplete at h
  split at h
  · cases h
  obtain ⟨⟨major, cs₁⟩, hmajor, hrest⟩ := bind_eq_ok.1 h
  obtain ⟨cs₂, hdot, hrest⟩ := bind_eq_ok.1 hrest
  obtain ⟨⟨minor, cs₃⟩, hminor, hrest⟩ := bind_eq_ok.1 hrest
  obtain ⟨cs₄, hdot', hrest⟩ := bind_eq_ok.1 hrest
  obtain ⟨⟨patch, cs₅⟩, hpatch, hrest⟩ := bind_eq_ok.1 hrest
  obtain ⟨⟨preRelease, cs₆, last⟩, hpre, hrest⟩ := bind_eq_ok.1 hrest
  obtain ⟨⟨build, cs₇, last'⟩, hbuild, hend⟩ := bind_eq_ok.1 hrest
  obtain ⟨a, rfl, ha⟩ := of_number hmajor
  cases dot_eq_ok_iff.1 hdot
  obtain ⟨b, rfl, hb⟩ := of_number hminor
  cases dot_eq_ok_iff.1 hdot'
  obtain ⟨d, rfl, hd⟩ := of_number hpatch
  obtain ⟨preText, rfl, hpreText⟩ := of_tagged hpre
  obtain ⟨buildText, rfl, hbuildText⟩ := of_tagged hbuild
  cases cs₇ with
  | nil =>
      cases hend
      exact ⟨_, _, _, by simp, .three ha hb hd, hpreText, hbuildText⟩
  | cons c cs₇ => cases hend

/-- The complete versions that are read are those of the grammar. -/
theorem parseComplete_eq_ok_iff : parseComplete cs = .ok v ↔ SpellsWith 3 cs v :=
  ⟨spells_of_parseComplete, parseComplete_of_spells⟩

/-! ## Missing numbers -/

/-- The characters in front of the first hyphen or plus sign. -/
def inNumbers (c : Char) : Bool := c ≠ '-' && c ≠ '+'

/-- What is filled in behind numbers with so many dots. -/
def filling : Nat → List Char
  | 0 => ['.', '0', '.', '0']
  | 1 => ['.', '0']
  | _ => []

/-- What is left out of the numbers is filled in behind them, whatever goes on after them. -/
theorem pad_append (hnumbers : ∀ c ∈ numbers, inNumbers c) (hrest : Stops inNumbers rest) :
    pad (numbers ++ rest) = numbers ++ filling (numbers.count '.') ++ rest := by
  have htake : (numbers ++ rest).takeWhile inNumbers = numbers := takeWhile_append hnumbers hrest
  unfold inNumbers at htake
  rw [pad, htake, List.drop_left]
  rcases numbers.count '.' with _ | _ | k <;> rfl

/-- Every text is numbers and what begins with a hyphen or plus sign. -/
theorem exists_numbers (cs : List Char) :
    ∃ numbers rest, cs = numbers ++ rest ∧ (∀ c ∈ numbers, inNumbers c) ∧ Stops inNumbers rest :=
  ⟨cs.takeWhile inNumbers, cs.dropWhile inNumbers, List.takeWhile_append_dropWhile.symm,
    fun _ hc => List.mem_takeWhile_imp hc, .dropWhile inNumbers cs⟩

/-- The numeral that is filled in stands for zero. -/
theorem Numeral.zero : Numeral ['0'] 0 := ⟨by decide, fun _ => rfl, by decide⟩

theorem Numeral.no_dot (h : Numeral cs n) : '.' ∉ cs :=
  fun hdot => absurd (Text.isDigit_of_natural? h.value '.' hdot) (by decide)

theorem Numeral.eq_zero (h : Numeral ['0'] n) : n = 0 := (Option.some.inj h.value).symm

/-- A numeral has no hyphen and no plus sign. -/
theorem Numeral.inNumbers (h : Numeral cs n) : ∀ c ∈ cs, inNumbers c := by
  intro c hc
  have hdigit := Text.isDigit_of_natural? h.value c hc
  rw [Version.inNumbers, Bool.and_eq_true, decide_eq_true_iff, decide_eq_true_iff]
  refine ⟨?_, ?_⟩ <;> rintro rfl <;> exact absurd hdigit (by decide)

/-- The numbers have no hyphen and no plus sign. -/
theorem Numbers.inNumbers (h : Numbers count cs major minor patch) : ∀ c ∈ cs, inNumbers c := by
  have hdot : Version.inNumbers '.' := by decide
  cases h with
  | one ha => exact ha.inNumbers
  | two ha hb =>
      exact List.forall_mem_append.2 ⟨ha.inNumbers, List.forall_mem_cons.2 ⟨hdot, hb.inNumbers⟩⟩
  | three ha hb hd =>
      have hlater := List.forall_mem_append.2
        ⟨hb.inNumbers, List.forall_mem_cons.2 ⟨hdot, hd.inNumbers⟩⟩
      exact List.forall_mem_append.2 ⟨ha.inNumbers, List.forall_mem_cons.2 ⟨hdot, hlater⟩⟩

/-- The numbers that are filled in are those that are missing. -/
theorem Numbers.pad (h : Numbers count cs major minor patch) :
    Numbers 3 (cs ++ filling (cs.count '.')) major minor patch := by
  cases h with
  | one ha =>
      rw [List.count_eq_zero.2 ha.no_dot]
      exact .three ha .zero .zero
  | @two a b _ _ ha hb =>
      have hcount : (a ++ '.' :: b).count '.' = 1 := by
        simp [List.count_eq_zero.2 ha.no_dot, List.count_eq_zero.2 hb.no_dot]
      rw [hcount, List.append_assoc]
      exact .three ha hb .zero
  | @three a b d _ _ _ ha hb hd =>
      have hcount : (a ++ '.' :: (b ++ '.' :: d)).count '.' = 2 := by
        simp [List.count_eq_zero.2 ha.no_dot, List.count_eq_zero.2 hb.no_dot,
          List.count_eq_zero.2 hd.no_dot]
      rw [hcount, show filling 2 = [] from rfl, List.append_nil]
      exact .three ha hb hd

/-- Only numbers become three numbers when the missing ones are filled in. -/
theorem Numbers.unpad (h : Numbers 3 (cs ++ filling (cs.count '.')) major minor patch) :
    ∃ count, Numbers count cs major minor patch := by
  generalize htext : cs ++ filling (cs.count '.') = text at h
  cases h with
  | @three a b d _ _ _ ha hb hd =>
  match hdots : cs.count '.' with
  | 0 =>
      rw [hdots] at htext
      obtain ⟨rfl, hlater⟩ := Text.append_cons_inj (List.count_eq_zero.1 hdots) ha.no_dot htext
      obtain ⟨rfl, rfl⟩ := Text.append_cons_inj Numeral.zero.no_dot hb.no_dot hlater
      rw [hb.eq_zero, hd.eq_zero]
      exact ⟨1, .one ha⟩
  | 1 =>
      have hdot : '.' ∈ cs := List.count_pos_iff.1 (hdots ▸ Nat.one_pos)
      obtain ⟨x, y, rfl, hx⟩ := List.eq_append_cons_of_mem hdot
      have hy : '.' ∉ y := by
        rw [List.count_append, List.count_cons_self] at hdots
        exact List.count_eq_zero.1 (by omega)
      rw [hdots, List.append_assoc] at htext
      obtain ⟨rfl, hlater⟩ := Text.append_cons_inj hx ha.no_dot htext
      obtain ⟨rfl, rfl⟩ := Text.append_cons_inj hy hb.no_dot hlater
      rw [hd.eq_zero]
      exact ⟨2, .two ha hb⟩
  | k + 2 =>
      rw [hdots, show filling (k + 2) = [] from rfl, List.append_nil] at htext
      rw [htext]
      exact ⟨3, .three ha hb hd⟩

/-- What is filled in belongs to the numbers. -/
theorem inNumbers_filling (n : Nat) : ∀ c ∈ filling n, inNumbers c := by
  match n with
  | 0 => simp [filling, inNumbers]
  | 1 => simp [filling, inNumbers]
  | n + 2 => simp [filling]

/-- A text with the missing numbers filled in stands for a version exactly if the text does. -/
theorem spellsWith_pad_iff : SpellsWith 3 (pad cs) v ↔ Spells cs v := by
  constructor
  · rintro ⟨numbers', pre, build, hpad, hnumbers', hpre, hbuild⟩
    obtain ⟨numbers, rest, rfl, hnumbers, hrest⟩ := exists_numbers cs
    rw [pad_append hnumbers hrest] at hpad
    -- both texts have their numbers in front of the first hyphen or plus sign
    have hfilled := List.forall_mem_append.2 ⟨hnumbers, inNumbers_filling (numbers.count '.')⟩
    have hmarks := stops_tagged hpre hbuild (p := Version.inNumbers) (by decide) (by decide)
    have htake := congrArg (List.takeWhile Version.inNumbers) hpad
    rw [takeWhile_append hfilled hrest, takeWhile_append hnumbers'.inNumbers hmarks] at htake
    rw [htake, List.append_cancel_left_eq] at hpad
    rw [← htake] at hnumbers'
    obtain ⟨count, h⟩ := hnumbers'.unpad
    exact ⟨count, numbers, pre, build, by rw [hpad], h, hpre, hbuild⟩
  · rintro ⟨count, numbers, pre, build, rfl, hnumbers, hpre, hbuild⟩
    have hmarks := stops_tagged hpre hbuild (p := Version.inNumbers) (by decide) (by decide)
    rw [pad_append hnumbers.inNumbers hmarks]
    exact ⟨_, pre, build, rfl, hnumbers.pad, hpre, hbuild⟩

/-! ## All texts -/

/-- The texts that are parsed are those of the grammar, with the versions that they stand for.
-/
theorem parse_eq_ok_iff {text : String} : parse text = .ok v ↔ Spells text.toList v := by
  rw [parse, parseComplete_eq_ok_iff, spellsWith_pad_iff]

/-- A version is read exactly from the texts of the grammar. -/
theorem read_eq_ok_iff {text : String} : Version.read text = .ok v ↔ Spells text.toList v := by
  rw [← parse_eq_ok_iff, Version.read]
  cases parse text <;> simp

/-- A text is read exactly if it is one to three numbers, each without leading zeros and in range,
and then the pre-release and build identifiers if there are any. The version is the one that the
text stands for, with zeros for the numbers that are missing; filling them in leads to a text with
all three numbers that stands for the same versions, and to no such text from any other. The written
form of a version that was read has all three numbers and is read as this version again. -/
theorem read_exact (text : String) (v : Version) :
    (Version.read text = .ok v ↔ Spells text.toList v) ∧
    (SpellsWith 3 (pad text.toList) v ↔ Spells text.toList v) ∧
    (Version.read text = .ok v → SpellsWith 3 v.text.toList v ∧ Version.read v.text = .ok v) := by
  refine ⟨read_eq_ok_iff, spellsWith_pad_iff, fun h => ?_⟩
  obtain ⟨count, hspells⟩ := read_eq_ok_iff.1 h
  have htext := hspells.wellFormed.spelling_text
  exact ⟨htext, read_eq_ok_iff.2 ⟨3, htext⟩⟩

/-- A number is missing before a pre-release with a dot; without its identifiers the text is no
version. -/
theorem read_exact_short :
    Spells "2.1-rc.1+b".toList ⟨2, 1, 0, ["rc", "1"], ["b"]⟩ ∧
      (⟨2, 1, 0, ["rc", "1"], ["b"]⟩ : Version).text = "2.1.0-rc.1+b" ∧
      Version.read "2.1.0-rc.1+b" = .ok ⟨2, 1, 0, ["rc", "1"], ["b"]⟩ ∧
      ∀ v, ¬ Spells "2.1-".toList v := by
  have hread : Version.read "2.1-rc.1+b" = .ok ⟨2, 1, 0, ["rc", "1"], ["b"]⟩ := rfl
  have htext : (⟨2, 1, 0, ["rc", "1"], ["b"]⟩ : Version).text = "2.1.0-rc.1+b" := by
    simp [text, Text.natural, Text.digits, Text.digitChar, tail, Text.join]
  have hbare : Version.read "2.1-" =
      .error (.fatal (.invalidVersion "2.1-" (.emptySegment .preRelease))) := rfl
  obtain ⟨hspells, _, hagain⟩ := read_exact "2.1-rc.1+b" ⟨2, 1, 0, ["rc", "1"], ["b"]⟩
  refine ⟨hspells.1 hread, htext, htext ▸ (hagain hread).2, fun v hv => ?_⟩
  cases hbare.symm.trans ((read_exact "2.1-" v).1.2 hv)

end VaultKernel.Version
