import Mathlib.Algebra.Group.Nat.Defs
import VaultKernel.Text.Numeral

/-!
# Numerals that were written can be read

The digits of a number are read as the number, and so are the texts of natural numbers and integers.
The reading of a bounded number accepts every number within the bounds. What is written for a number
that was read is no longer than the text it was read from, because the only other texts that are
read have signs and zeros in front (`integer_utf8_le`, `natural_utf8_le`).
-/

namespace VaultKernel.Text

/-- A digit is read as its value. -/
theorem digitValue?_digitChar {d : Nat} (hd : d < 10) : digitValue? (digitChar d) = some d := by
  have hcases : ∀ d : Fin 10, digitValue? (digitChar d) = some d.val := by decide
  exact hcases ⟨d, hd⟩

/-- A numeral is read from left to right, so it may be read in two pieces. -/
theorem naturalFrom_append (value : Nat) (front back : List Char) :
    naturalFrom value (front ++ back) = (naturalFrom value front).bind (naturalFrom · back) := by
  induction front generalizing value with
  | nil => rfl
  | cons c front ih =>
      simp only [List.cons_append, naturalFrom]
      cases digitValue? c with
      | none => rfl
      | some d => exact ih _

/-- The digits of a number are read as the number. -/
theorem naturalFrom_digits (n : Nat) : naturalFrom 0 (digits n) = some n := by
  induction n using digits.induct with
  | case1 n hn =>
      rw [digits, if_pos hn]
      simp [naturalFrom, digitValue?_digitChar hn]
  | case2 n hn ih =>
      rw [digits, if_neg hn, naturalFrom_append, ih, Option.bind_some]
      have hd : digitValue? (digitChar (n % 10)) = some (n % 10) :=
        digitValue?_digitChar (Nat.mod_lt _ (by omega))
      simp only [naturalFrom, hd, Option.bind_eq_bind, Option.bind_some]
      congr 1
      omega

/-- The first character of a number is a digit. -/
theorem exists_digits_eq (n : Nat) : ∃ d rest, d < 10 ∧ digits n = digitChar d :: rest := by
  induction n using digits.induct with
  | case1 n hn => exact ⟨n, [], hn, by rw [digits, if_pos hn]⟩
  | case2 n hn ih =>
      obtain ⟨d, rest, hd, hdigits⟩ := ih
      exact ⟨d, rest ++ [digitChar (n % 10)], hd, by rw [digits, if_neg hn, hdigits]; rfl⟩

/-- No numeral has a dot in it. -/
theorem digit_ne_dot {n : Nat} {c : Char} (h : c ∈ digits n) : c ≠ '.' := by
  have hcases : ∀ d : Fin 10, digitChar d ≠ '.' := by decide
  induction n using digits.induct with
  | case1 n hn =>
      rw [digits, if_pos hn, List.mem_singleton] at h
      exact h ▸ hcases ⟨n, hn⟩
  | case2 n hn ih =>
      rw [digits, if_neg hn, List.mem_append, List.mem_singleton] at h
      rcases h with h | h
      · exact ih h
      · exact h ▸ hcases ⟨n % 10, Nat.mod_lt _ (by omega)⟩

/-- Only zero begins with a zero. -/
theorem eq_zero_of_head_digits {n : Nat} (h : (digits n).head? = some '0') : n = 0 := by
  have hcases : ∀ d : Fin 10, digitChar d = '0' → d.val = 0 := by decide
  induction n using digits.induct with
  | case1 n hn =>
      rw [digits, if_pos hn] at h
      exact hcases ⟨n, hn⟩ (Option.some.inj h)
  | case2 n hn ih =>
      obtain ⟨d, rest, _, hdigits⟩ := exists_digits_eq (n / 10)
      rw [digits, if_neg hn, hdigits] at h
      rw [hdigits] at ih
      have hzero := ih h
      omega

/-- No digit is a sign. -/
theorem digitChar_ne_sign {d : Nat} (hd : d < 10) : digitChar d ≠ '+' ∧ digitChar d ≠ '-' := by
  have hcases : ∀ d : Fin 10, digitChar d ≠ '+' ∧ digitChar d ≠ '-' := by decide
  exact hcases ⟨d, hd⟩

/-- The digits of a number make up a natural number. -/
theorem natural?_digits (n : Nat) : natural? (digits n) = some n := by
  obtain ⟨d, rest, _, hdigits⟩ := exists_digits_eq n
  have hread := naturalFrom_digits n
  rw [hdigits] at hread ⊢
  exact hread

/-- The digits of a number are read without a sign. -/
theorem unsigned?_digits (n : Nat) : unsigned? (digits n) = some n := by
  obtain ⟨d, rest, hd, hdigits⟩ := exists_digits_eq n
  have hread := natural?_digits n
  rw [hdigits] at hread ⊢
  unfold unsigned?
  -- a digit in front is no sign
  split
  · next heq => exact absurd (List.cons.inj heq).1 (digitChar_ne_sign hd).1
  · exact hread

/-- The digits of a number are read as an integer. -/
theorem integer?_digits (n : Nat) : integer? (digits n) = some (n : Int) := by
  obtain ⟨d, rest, hd, hdigits⟩ := exists_digits_eq n
  have hread := unsigned?_digits n
  rw [hdigits] at hread ⊢
  unfold integer?
  split
  · next heq => exact absurd (List.cons.inj heq).1 (digitChar_ne_sign hd).2
  · rw [hread]
    rfl

/-- A natural number is read back from its text. -/
theorem unsigned?_natural (n : Nat) : unsigned? (natural n).toList = some n := by
  rw [natural, String.toList_ofList]
  exact unsigned?_digits n

/-- An integer is read back from its text. -/
theorem integer?_integer (z : Int) : integer? (integer z).toList = some z := by
  unfold integer natural
  split
  · next hz =>
      have htext : ("-" ++ String.ofList (digits z.natAbs)).toList = '-' :: digits z.natAbs := by
        simp
      rw [htext, integer?, natural?_digits]
      show some (-(z.natAbs : Int)) = some z
      congr 1
      omega
  · next hz =>
      rw [String.toList_ofList, integer?_digits]
      congr 1
      omega

/-- A natural number within the limit is read back from its text. -/
theorem unsignedUpTo?_natural {limit n : Nat} (hn : n ≤ limit) :
    unsignedUpTo? limit (natural n) = some n := by
  rw [unsignedUpTo?, unsigned?_natural]
  simpa using hn

/-- An integer within the bounds is read back from its text. -/
theorem integerIn?_integer {low high z : Int} (hlow : low ≤ z) (hhigh : z ≤ high) :
    integerIn? low high (integer z) = some z := by
  rw [integerIn?, integer?_integer]
  simpa using ⟨hlow, hhigh⟩

/-! ## Sizes -/

/-- The value of a digit is less than ten. -/
theorem digitValue?_lt {c : Char} {d : Nat} (h : digitValue? c = some d) : d < 10 := by
  unfold digitValue? at h
  split at h
  · cases h
    omega
  · cases h

/-- The only digit of value zero is the zero. -/
theorem eq_zero_char_of_digitValue? {c : Char} (h : digitValue? c = some 0) : c = '0' := by
  unfold digitValue? at h
  split at h
  · next hc =>
      have hvalue : c.toNat = 48 := by
        have := Option.some.inj h
        omega
      exact Char.toNat_inj.1 hvalue
  · cases h

/-- More digits make no smaller number. -/
theorem le_of_naturalFrom {value n : Nat} {cs : List Char} (h : naturalFrom value cs = some n) :
    value ≤ n := by
  induction cs generalizing value with
  | nil => exact Nat.le_of_eq (Option.some.inj h)
  | cons c cs ih =>
      obtain ⟨d, _, hrest⟩ := Option.bind_eq_some_iff.1 h
      have hle := ih hrest
      omega

/-- A numeral consists of digits. -/
theorem isDigit_of_naturalFrom {value n : Nat} {cs : List Char}
    (h : naturalFrom value cs = some n) : ∀ c ∈ cs, isDigit c := by
  induction cs generalizing value with
  | nil => simp
  | cons c cs ih =>
      obtain ⟨d, hd, hrest⟩ := Option.bind_eq_some_iff.1 h
      exact List.forall_mem_cons.2 ⟨by rw [isDigit, hd]; rfl, ih hrest⟩

/-- What is read as a number consists of digits. -/
theorem isDigit_of_natural? {n : Nat} {cs : List Char} (h : natural? cs = some n) :
    ∀ c ∈ cs, isDigit c := by
  cases cs with
  | nil => simp
  | cons c cs => exact isDigit_of_naturalFrom h

/-- A numeral is bounded by the number of its digits. -/
theorem naturalFrom_lt {value n : Nat} {cs : List Char} (h : naturalFrom value cs = some n) :
    n < (value + 1) * 10 ^ cs.length := by
  induction cs generalizing value with
  | nil =>
      cases h
      simp
  | cons c cs ih =>
      obtain ⟨d, hd, hrest⟩ := Option.bind_eq_some_iff.1 h
      have hdigit := digitValue?_lt hd
      calc n < (10 * value + d + 1) * 10 ^ cs.length := ih hrest
        _ ≤ (value + 1) * 10 * 10 ^ cs.length := Nat.mul_le_mul_right _ (by omega)
        _ = (value + 1) * 10 ^ (cs.length + 1) := by
            rw [Nat.mul_assoc, Nat.pow_succ, Nat.mul_comm 10]

/-- A number below a power of ten has no more digits than that. -/
theorem length_digits_le {n k : Nat} (hk : 0 < k) (hn : n < 10 ^ k) : (digits n).length ≤ k := by
  induction n using digits.induct generalizing k with
  | case1 n hsmall =>
      rw [digits, if_pos hsmall]
      exact hk
  | case2 n hlarge ih =>
      obtain ⟨j, rfl⟩ : ∃ j, k = j + 1 := ⟨k - 1, by omega⟩
      have hj : 0 < j := by
        rcases Nat.eq_zero_or_pos j with rfl | hpos
        · exact absurd hn hlarge
        · exact hpos
      have hquotient : n / 10 < 10 ^ j :=
        Nat.div_lt_of_lt_mul (by rwa [Nat.mul_comm, ← Nat.pow_succ])
      have hrest := ih hj hquotient
      rw [digits, if_neg hlarge, List.length_append, List.length_singleton]
      omega

/-- A run of digits is at least as long as the digits of its number. -/
theorem length_digits_of_natural? {cs : List Char} {n : Nat} (h : natural? cs = some n) :
    (digits n).length ≤ cs.length := by
  cases cs with
  | nil => cases h
  | cons c cs =>
      have hlt := naturalFrom_lt h
      exact length_digits_le (Nat.succ_pos _) (by omega)

/-- A number has no more digits than the text that it is read from. -/
theorem length_digits_of_unsigned? {cs : List Char} {n : Nat} (h : unsigned? cs = some n) :
    (digits n).length ≤ cs.length := by
  unfold unsigned? at h
  split at h
  · have hle := length_digits_of_natural? h
    rw [List.length_cons]
    omega
  · exact length_digits_of_natural? h

/-- A text in front of which a character is put grows by its bytes. -/
theorem utf8ByteSize_cons (c : Char) (cs : List Char) :
    (String.ofList (c :: cs)).utf8ByteSize = c.utf8Size + (String.ofList cs).utf8ByteSize := by
  have hsplit : String.ofList (c :: cs) = String.singleton c ++ String.ofList cs := by
    simp
  rw [hsplit, String.utf8ByteSize_append, String.utf8ByteSize_singleton]

/-- A character takes a byte or more. -/
theorem length_le_utf8ByteSize (cs : List Char) : cs.length ≤ (String.ofList cs).utf8ByteSize := by
  induction cs with
  | nil => exact Nat.zero_le _
  | cons c cs ih =>
      have hpos := c.utf8Size_pos
      rw [utf8ByteSize_cons, List.length_cons]
      omega

/-- A digit takes one byte. -/
theorem utf8Size_digitChar {d : Nat} (hd : d < 10) : (digitChar d).utf8Size = 1 := by
  have hcases : ∀ d : Fin 10, (digitChar d).utf8Size = 1 := by decide
  exact hcases ⟨d, hd⟩

/-- A natural number takes a byte for each digit. -/
theorem utf8ByteSize_natural (n : Nat) : (natural n).utf8ByteSize = (digits n).length := by
  unfold natural
  induction n using digits.induct with
  | case1 n hsmall =>
      rw [digits, if_pos hsmall, utf8ByteSize_cons, utf8Size_digitChar hsmall]
      rfl
  | case2 n hlarge ih =>
      rw [digits, if_neg hlarge, String.ofList_append, String.utf8ByteSize_append, ih,
        utf8ByteSize_cons, utf8Size_digitChar (Nat.mod_lt _ (by omega)), List.length_append]
      rfl

/-- What is written for an unsigned number is no longer than what it was read from. -/
theorem natural_utf8_le {limit n : Nat} {text : String} (h : unsignedUpTo? limit text = some n) :
    (natural n).utf8ByteSize ≤ text.utf8ByteSize := by
  obtain ⟨hread, _⟩ := Option.filter_eq_some_iff.1 h
  have hdigits := length_digits_of_unsigned? hread
  have hbytes := length_le_utf8ByteSize text.toList
  rw [String.ofList_toList] at hbytes
  rw [utf8ByteSize_natural]
  omega

/-- An integer takes no more bytes than the text that it is read from. -/
theorem utf8ByteSize_integer_le {cs : List Char} {z : Int} (h : integer? cs = some z) :
    (integer z).utf8ByteSize ≤ cs.length := by
  unfold integer? at h
  split at h
  · next rest =>
      obtain ⟨_, hlift, rfl⟩ := Option.map_eq_some_iff.1 h
      obtain ⟨n, hread, hcast⟩ := Option.bind_eq_some_iff.1 hlift
      cases hcast
      have hdigits := length_digits_of_natural? hread
      have habs : (-(n : Int)).natAbs = n := by omega
      rw [integer, habs, List.length_cons]
      split
      · rw [String.utf8ByteSize_append, utf8ByteSize_natural, Nat.add_comm]
        exact Nat.succ_le_succ hdigits
      · rw [utf8ByteSize_natural]
        omega
  · obtain ⟨_, hlift, rfl⟩ := Option.map_eq_some_iff.1 h
    obtain ⟨n, hread, hcast⟩ := Option.bind_eq_some_iff.1 hlift
    cases hcast
    have hdigits := length_digits_of_unsigned? hread
    rw [integer, if_neg (by omega), Int.natAbs_natCast, utf8ByteSize_natural]
    exact hdigits

/-- What is written for a signed number is no longer than what it was read from. -/
theorem integer_utf8_le {low high z : Int} {text : String}
    (h : integerIn? low high text = some z) : (integer z).utf8ByteSize ≤ text.utf8ByteSize := by
  obtain ⟨hread, _⟩ := Option.filter_eq_some_iff.1 h
  have hsize := utf8ByteSize_integer_le hread
  have hbytes := length_le_utf8ByteSize text.toList
  rw [String.ofList_toList] at hbytes
  omega

end VaultKernel.Text
