import Mathlib.Data.List.Infix
import VaultKernel.Text.Split

/-!
# Cuts undo joins

What was joined with a divider is cut at the same place again. For a character the later part must
not have it; for a longer divider it must not begin any earlier, which two characters decide that do
not follow each other in the front part (`splitAt_append_of_undivided`). A text that is cut wherever
a character stands falls apart into what was joined with it.
-/

namespace VaultKernel.Text

variable {c : Char} {divider front back text rest : List Char}

/-- A text goes on after another one that it begins with. -/
theorem after?_eq_some_iff {head : List Char} :
    after? head text = some rest ↔ text = head ++ rest := by
  induction head generalizing text with
  | nil => simp [after?]
  | cons h head ih =>
      cases text with
      | nil => simp [after?]
      | cons t text =>
          rw [after?]
          by_cases hht : h = t
          · simp [hht, ih]
          · simp [hht, Ne.symm hht]

/-- A joined text goes on with its second part. -/
theorem after?_append (head rest : List Char) : after? head (head ++ rest) = some rest :=
  after?_eq_some_iff.2 rfl

/-! ## The last character -/

/-- There is no last place to cut at exactly if the character does not occur. -/
theorem splitLast_eq_none_iff : splitLast c text = none ↔ c ∉ text := by
  induction text with
  | nil => simp [splitLast]
  | cons x text ih =>
      rw [splitLast]
      cases hsplit : splitLast c text with
      | some parts =>
          have hmem : c ∈ text := by
            by_contra hmem
            rw [ih.2 hmem] at hsplit
            cases hsplit
          simp [hmem]
      | none =>
          have hnot : c ∉ text := ih.1 hsplit
          by_cases hx : x = c
          · simp [hx]
          · simp [hx, hnot, Ne.symm hx]

/-- A character that does not come back later is the place of the cut. -/
theorem splitLast_append (front : List Char) (hback : c ∉ back) :
    splitLast c (front ++ c :: back) = some (front, back) := by
  induction front with
  | nil => rw [List.nil_append, splitLast, splitLast_eq_none_iff.2 hback, if_pos rfl]
  | cons x front ih => rw [List.cons_append, splitLast, ih]

/-- Where a text was cut the character was. -/
theorem eq_of_splitLast (h : splitLast c text = some (front, back)) :
    text = front ++ c :: back := by
  induction text generalizing front with
  | nil => cases h
  | cons x text ih =>
      rw [splitLast] at h
      cases hsplit : splitLast c text with
      | some parts =>
          rw [hsplit] at h
          cases h
          rw [List.cons_append, ← ih hsplit]
      | none =>
          rw [hsplit] at h
          dsimp only at h
          split at h
          · next hx =>
              cases h
              rw [hx, List.nil_append]
          · cases h

/-- Nothing is cut off behind the last character. -/
theorem not_mem_of_splitLast (h : splitLast c text = some (front, back)) : c ∉ back := by
  induction text generalizing front with
  | nil => cases h
  | cons x text ih =>
      rw [splitLast] at h
      cases hsplit : splitLast c text with
      | some parts =>
          rw [hsplit] at h
          cases h
          exact ih hsplit
      | none =>
          rw [hsplit] at h
          dsimp only at h
          split at h
          · cases h
            exact splitLast_eq_none_iff.1 hsplit
          · cases h

/-! ## The first character -/

/-- There is no first place to cut at exactly if the character does not occur. -/
theorem splitFirst_eq_none_iff : splitFirst c text = none ↔ c ∉ text := by
  induction text with
  | nil => simp [splitFirst]
  | cons x text ih =>
      rw [splitFirst]
      by_cases hx : x = c
      · simp [hx]
      · simp [hx, ih, Ne.symm hx]

/-- A character that was not there before is the place of the cut. -/
theorem splitFirst_append (hfront : c ∉ front) :
    splitFirst c (front ++ c :: rest) = some (front, rest) := by
  induction front with
  | nil => rw [List.nil_append, splitFirst, if_pos rfl]
  | cons x front ih =>
      rw [List.mem_cons, not_or] at hfront
      rw [List.cons_append, splitFirst, if_neg (Ne.symm hfront.1), ih hfront.2]
      rfl

/-- The first place of a character cuts a text in one way only. -/
theorem append_cons_inj {front' rest' : List Char} (hfront : c ∉ front) (hfront' : c ∉ front')
    (h : front ++ c :: rest = front' ++ c :: rest') : front = front' ∧ rest = rest' := by
  have hsplit : splitFirst c (front ++ c :: rest) = some (front, rest) := splitFirst_append hfront
  rw [h, splitFirst_append hfront'] at hsplit
  cases hsplit
  exact ⟨rfl, rfl⟩

/-- The later part with the character in front is what is left without the characters before it. -/
theorem dropWhile_of_splitFirst (h : splitFirst c text = some (front, rest)) :
    text.dropWhile (· ≠ c) = c :: rest := by
  induction text generalizing front with
  | nil => cases h
  | cons x text ih =>
      rw [splitFirst] at h
      by_cases hx : x = c
      · rw [if_pos hx] at h
        cases h
        simp [hx]
      · rw [if_neg hx] at h
        obtain ⟨parts, hparts, heq⟩ := Option.map_eq_some_iff.1 h
        cases heq
        rw [List.dropWhile_cons_of_pos (by simpa using hx)]
        exact ih hparts

/-! ## The first divider -/

/-- The cut is where the divider was put, unless it begins earlier. -/
theorem splitAt_append
    (hearlier : ∀ later, later ≠ [] → later <:+ front →
      after? divider (later ++ (divider ++ back)) = none) :
    splitAt divider (front ++ (divider ++ back)) = some (front, back) := by
  induction front with
  | nil =>
      have hafter := after?_append divider back
      cases htext : divider ++ back with
      | nil =>
          rw [htext] at hafter
          rw [List.nil_append, splitAt, hafter]
          rfl
      | cons x text =>
          rw [htext] at hafter
          rw [List.nil_append, splitAt, hafter]
  | cons x front ih =>
      have hhere := hearlier (x :: front) (by simp) (List.suffix_refl _)
      rw [List.cons_append] at hhere
      rw [List.cons_append, splitAt, hhere, ih fun later hne hsuffix =>
        hearlier later hne (hsuffix.trans (List.suffix_cons x front))]
      rfl

/-- What is cut at a divider contains it. -/
theorem eq_of_splitAt (h : splitAt divider text = some (front, back)) :
    text = front ++ (divider ++ back) := by
  induction text generalizing front with
  | nil =>
      obtain ⟨rest, hafter, heq⟩ := Option.map_eq_some_iff.1 h
      cases heq
      rw [List.nil_append]
      exact after?_eq_some_iff.1 hafter
  | cons x text ih =>
      rw [splitAt] at h
      cases hafter : after? divider (x :: text) with
      | some rest =>
          rw [hafter] at h
          cases h
          rw [List.nil_append]
          exact after?_eq_some_iff.1 hafter
      | none =>
          rw [hafter] at h
          obtain ⟨parts, hparts, heq⟩ := Option.map_eq_some_iff.1 h
          cases heq
          rw [List.cons_append, ← ih hparts]

/-- A text without the divider is not cut. -/
theorem splitAt_eq_none (h : ¬ divider <:+: text) : splitAt divider text = none := by
  cases hsplit : splitAt divider text with
  | none => rfl
  | some parts =>
      refine absurd ⟨parts.1, parts.2, ?_⟩ h
      rw [List.append_assoc]
      exact (eq_of_splitAt hsplit).symm

/-! ## Dividers that begin with two different characters -/

variable {x y : Char} {more tail : List Char}

/-- Before the next place at which the first character stands, such a divider would have to stand in
what comes before. -/
theorem not_prefix_of_undivided (hne : x ≠ y) (hfront : ¬ [x, y] <:+: front) (hsome : front ≠ []) :
    ¬ x :: y :: more <+: front ++ x :: tail := by
  rintro ⟨rest, htext⟩
  match front, hsome with
  | [u], _ =>
      -- the first character would stand twice in a row
      obtain ⟨_, htail⟩ := List.cons.inj htext
      exact hne (List.cons.inj htail).1.symm
  | u :: w :: later, _ =>
      obtain ⟨rfl, htail⟩ := List.cons.inj htext
      obtain ⟨rfl, _⟩ := List.cons.inj htail
      exact hfront ⟨[], later, rfl⟩

/-- A part in which the two characters do not follow each other can be cut off. -/
theorem splitAt_append_of_undivided (hne : x ≠ y) (hfront : ¬ [x, y] <:+: front) :
    splitAt (x :: y :: more) (front ++ (x :: y :: more ++ back)) = some (front, back) := by
  refine splitAt_append fun later hlater hsuffix => ?_
  rw [Option.eq_none_iff_forall_ne_some]
  intro rest hrest
  exact not_prefix_of_undivided hne (fun h => hfront (h.trans hsuffix.isInfix)) hlater
    ⟨rest, (after?_eq_some_iff.1 hrest).symm⟩

/-- In a part in which the two characters do not follow each other no divider begins. -/
theorem infix_of_undivided (hne : x ≠ y) (hfront : ¬ [x, y] <:+: front)
    (h : x :: y :: more <:+: front ++ x :: tail) : x :: y :: more <:+: x :: tail := by
  induction front with
  | nil => exact h
  | cons u front ih =>
      rcases List.infix_cons_iff.1 h with hprefix | hlater
      · exact absurd hprefix (not_prefix_of_undivided hne hfront (by simp))
      · exact ih (fun hpart => hfront (hpart.trans (List.suffix_cons u front).isInfix)) hlater

/-! ## Pieces -/

/-- A text without the character is one piece. -/
theorem pieces_of_not_mem (h : c ∉ text) : pieces c text = [text] := by
  induction text with
  | nil => rfl
  | cons x text ih =>
      obtain ⟨hx, htext⟩ : c ≠ x ∧ c ∉ text := by simpa using h
      rw [pieces, if_neg hx.symm, ih htext]

/-- There is always a piece. -/
theorem pieces_ne_nil (c : Char) (text : List Char) : pieces c text ≠ [] := by
  induction text with
  | nil => simp [pieces]
  | cons x text ih =>
      rw [pieces]
      split
      · simp
      · cases hpieces : pieces c text <;> simp

/-- A character in front of a text that does not cut it belongs to the first piece. -/
theorem pieces_cons {x : Char} (hx : x ≠ c) (text : List Char) :
    ∃ piece more, pieces c text = piece :: more ∧ pieces c (x :: text) = (x :: piece) :: more := by
  obtain ⟨piece, more, hpieces⟩ := List.exists_cons_of_ne_nil (pieces_ne_nil c text)
  exact ⟨piece, more, hpieces, by rw [pieces, if_neg hx, hpieces]⟩

/-- The pieces have the characters of the text, without those that cut it. -/
theorem of_mem_pieces {piece : List Char} (h : piece ∈ pieces c text) :
    ∀ x ∈ piece, x ≠ c ∧ x ∈ text := by
  induction text generalizing piece with
  | nil =>
      cases List.mem_singleton.1 h
      simp
  | cons y text ih =>
      by_cases hy : y = c
      · rw [pieces, if_pos hy] at h
        rcases List.mem_cons.1 h with rfl | h
        · simp
        · exact fun x hx => (ih h x hx).imp_right (List.mem_cons_of_mem y)
      · obtain ⟨first, more, hpieces, heq⟩ := pieces_cons hy text
        rw [heq] at h
        rcases List.mem_cons.1 h with rfl | h
        · intro x hx
          rcases List.mem_cons.1 hx with rfl | hx
          · exact ⟨hy, by simp⟩
          · exact (ih (by simp [hpieces]) x hx).imp_right (List.mem_cons_of_mem y)
        · exact fun x hx => (ih (by simp [hpieces, h]) x hx).imp_right (List.mem_cons_of_mem y)

/-- A piece ends at the first divider. -/
theorem pieces_append (h : c ∉ front) : pieces c (front ++ c :: rest) = front :: pieces c rest := by
  induction front with
  | nil => rw [List.nil_append, pieces, if_pos rfl]
  | cons x front ih =>
      obtain ⟨hx, hfront⟩ : c ≠ x ∧ c ∉ front := by simpa using h
      rw [List.cons_append, pieces, if_neg hx.symm, ih hfront]

/-- Texts that are joined with a character they do not have are its pieces again. -/
theorem pieces_join {divider : String} {texts : List String} (hdivider : divider.toList = [c])
    (hsome : texts ≠ []) (h : ∀ t ∈ texts, c ∉ t.toList) :
    pieces c (join divider texts).toList = texts.map String.toList := by
  induction texts with
  | nil => exact absurd rfl hsome
  | cons t texts ih =>
      cases texts with
      | nil => exact pieces_of_not_mem (h t (by simp))
      | cons u texts =>
          have hrest := ih (by simp) fun t ht => h t (by simp [ht])
          show pieces c (t ++ divider ++ join divider (u :: texts)).toList = _
          rw [String.toList_append, String.toList_append, hdivider, List.append_assoc,
            List.singleton_append, pieces_append (h t (by simp)), hrest]
          rfl

/-- Joined texts begin with the first one, and the others have a divider in front of them. -/
theorem toList_join (divider t : String) (texts : List String) :
    (join divider (t :: texts)).toList =
      t.toList ++ texts.flatMap fun u => divider.toList ++ u.toList := by
  induction texts generalizing t with
  | nil => simp [join]
  | cons u texts ih =>
      show (t ++ divider ++ join divider (u :: texts)).toList = _
      rw [String.toList_append, String.toList_append, ih, List.flatMap_cons]
      simp only [List.append_assoc]

/-- The pieces of a text are joined to it again. -/
theorem join_pieces {divider : String} (hdivider : divider.toList = [c]) (text : List Char) :
    (join divider ((pieces c text).map String.ofList)).toList = text := by
  induction text with
  | nil => rfl
  | cons x text ih =>
      by_cases hx : x = c
      · obtain ⟨piece, more, hpieces⟩ := List.exists_cons_of_ne_nil (pieces_ne_nil c text)
        rw [hpieces, List.map_cons, toList_join] at ih
        rw [pieces, if_pos hx, hpieces, List.map_cons, List.map_cons, toList_join,
          List.flatMap_cons, hdivider, hx]
        rw [hdivider] at ih
        rw [← ih]
        simp
      · obtain ⟨piece, more, hpieces, heq⟩ := pieces_cons hx text
        rw [hpieces, List.map_cons, toList_join] at ih
        rw [heq, List.map_cons, toList_join, ← ih]
        simp

end VaultKernel.Text
