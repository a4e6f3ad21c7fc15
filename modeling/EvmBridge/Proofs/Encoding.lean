import EvmBridge.State.Account
import Mathlib.Algebra.Ring.Nat

/-!
# Encodings that can be read back

What is hashed is a concatenation of encoded parts. It commits to the parts only if no two lists
of parts concatenate to the same bytes, and for that each encoding has to be injective and all but
the last part has to say where it ends.

* numbers at a fixed width (`littleEndian_inj`, `bigEndian_inj`): injective below the first number
  that does not fit;
* numbers in the fewest bytes (`ofNat_inj`): injective throughout;
* the leaf of an account (`leafValue_inj`): three parts of fixed width, then the balance, which
  takes the rest.
-/

namespace EvmBridge.Bytes

/-- The number that stands in a byte string, least significant byte first. -/
def readLittle : Bytes → Nat
  | [] => 0
  | b :: bs => b.toNat + 256 * readLittle bs

/-- The number that stands in a byte string, most significant byte first. -/
def readBig (bs : Bytes) : Nat := bs.foldl (fun n b => n * 256 + b.toNat) 0

theorem readLittle_littleEndian (width n : Nat) :
    readLittle (littleEndian width n) = n % 256 ^ width := by
  induction width generalizing n with
  | zero => simp [littleEndian, readLittle, Nat.mod_one]
  | succ width ih =>
      have hb : (UInt8.ofNat (n % 256)).toNat = n % 256 := by simp
      rw [littleEndian, readLittle, ih, hb, Nat.pow_succ, Nat.mul_comm (256 ^ width),
        Nat.mod_mul]

theorem littleEndian_inj {width m n : Nat} (hm : m < 256 ^ width) (hn : n < 256 ^ width)
    (h : littleEndian width m = littleEndian width n) : m = n := by
  have hr := congrArg readLittle h
  rwa [readLittle_littleEndian, readLittle_littleEndian, Nat.mod_eq_of_lt hm,
    Nat.mod_eq_of_lt hn] at hr

theorem bigEndian_inj {width m n : Nat} (hm : m < 256 ^ width) (hn : n < 256 ^ width)
    (h : bigEndian width m = bigEndian width n) : m = n :=
  littleEndian_inj hm hn (List.reverse_inj.mp h)

theorem readBig_ofNat (n : Nat) : readBig (ofNat n) = n := by
  -- along the digits, the last one first
  induction n using ofNat.induct with
  | case1 n hn =>
      rw [ofNat, if_pos hn]
      have hb : (UInt8.ofNat n).toNat = n := by simp; omega
      simp only [readBig, List.foldl_cons, List.foldl_nil, hb]
      omega
  | case2 n hn ih =>
      have hb : (UInt8.ofNat (n % 256)).toNat = n % 256 := by simp
      rw [ofNat, if_neg hn, readBig, List.foldl_append]
      show readBig (ofNat (n / 256)) * 256 + (UInt8.ofNat (n % 256)).toNat = n
      rw [ih, hb]
      omega

theorem ofNat_inj {m n : Nat} (h : ofNat m = ofNat n) : m = n := by
  have hr := congrArg readBig h
  rwa [readBig_ofNat, readBig_ofNat] at hr

end EvmBridge.Bytes

namespace EvmBridge.Account

/-- **The leaf of an account can be taken apart again.** -/
theorem leafValue_inj {n n' : UInt64} {b b' : Nat} {c c' s s' : Hash}
    (h : leafValue n b c s = leafValue n' b' c' s') : n = n' ∧ b = b' ∧ c = c' ∧ s = s' := by
  unfold leafValue at h
  -- the parts of fixed width in front leave no choice for the balance behind them
  obtain ⟨h, hb⟩ := List.append_inj h (by simp [c.size_eq, c'.size_eq, s.size_eq, s'.size_eq])
  obtain ⟨h, hs⟩ := List.append_inj h (by simp [c.size_eq, c'.size_eq])
  obtain ⟨hn, hc⟩ := List.append_inj h (by simp)
  have hn := Bytes.bigEndian_inj (by simpa using n.toNat_lt) (by simpa using n'.toNat_lt) hn
  exact ⟨UInt64.toNat_inj.mp hn, Bytes.ofNat_inj hb, FixedBytes.ext hc, FixedBytes.ext hs⟩

end EvmBridge.Account
