/-!
# Byte strings

Everything that is hashed, stored or carried across the boundary is a finite sequence
of bytes. Numbers enter such a sequence in one of three ways: at a fixed width with the
most significant byte first, at a fixed width with the least significant byte first, or
in the fewest bytes that hold them.
-/

namespace EvmBridge

/-- A finite sequence of bytes. -/
abbrev Bytes := List UInt8

namespace Bytes

/-- The lowest `width` bytes of `n`, least significant byte first. -/
def littleEndian : (width : Nat) → (n : Nat) → Bytes
  | 0, _ => []
  | width + 1, n => UInt8.ofNat (n % 256) :: littleEndian width (n / 256)

/-- The lowest `width` bytes of `n`, most significant byte first. -/
def bigEndian (width n : Nat) : Bytes :=
  (littleEndian width n).reverse

/-- The fewest bytes that hold `n`, most significant byte first; zero takes one byte. -/
def ofNat (n : Nat) : Bytes :=
  if n < 256 then [UInt8.ofNat n]
  else ofNat (n / 256) ++ [UInt8.ofNat (n % 256)]
termination_by n
decreasing_by omega

/-- What stands before the first zero byte, all of it if there is none. -/
def untilNul (bs : Bytes) : Bytes :=
  bs.takeWhile (· ≠ 0)

@[simp] theorem length_littleEndian (width n : Nat) : (littleEndian width n).length = width := by
  induction width generalizing n with
  | zero => rfl
  | succ width ih => simp [littleEndian, ih]

@[simp] theorem length_bigEndian (width n : Nat) : (bigEndian width n).length = width := by
  simp [bigEndian]

end Bytes

end EvmBridge
