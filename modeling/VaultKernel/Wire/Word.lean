/-!
# Little-endian words

A word is written least significant byte first. `ofBytes_toBytes` says that reading back the bytes
of a number gives the number modulo the range of the width.
-/

namespace VaultKernel.Wire

/-- A sequence of bytes. -/
abbrev Bytes := List UInt8

namespace Word

/-- The `width` low bytes of `n`, least significant first. -/
def toBytes : (width n : Nat) → Bytes
  | 0, _ => []
  | width + 1, n => UInt8.ofNat (n % 256) :: toBytes width (n / 256)

/-- The number whose bytes these are, least significant first. -/
def ofBytes : Bytes → Nat
  | [] => 0
  | b :: rest => b.toNat + 256 * ofBytes rest

/-- The number of words of `width` bytes. -/
def range : (width : Nat) → Nat
  | 0 => 1
  | width + 1 => 256 * range width

/-- A word has as many bytes as it is wide. -/
@[simp]
theorem length_toBytes (width n : Nat) : (toBytes width n).length = width := by
  induction width generalizing n with
  | zero => rfl
  | succ width ih => simp [toBytes, ih]

/-- A word is read back as what fits into its width. -/
theorem ofBytes_toBytes (width n : Nat) : ofBytes (toBytes width n) = n % range width := by
  induction width generalizing n with
  | zero => simp [toBytes, ofBytes, range, Nat.mod_one]
  | succ width ih =>
    have hb : (UInt8.ofNat (n % 256)).toNat = n % 256 := by simp
    rw [toBytes, ofBytes, hb, ih, range, Nat.mod_mul]

end Word

end VaultKernel.Wire
