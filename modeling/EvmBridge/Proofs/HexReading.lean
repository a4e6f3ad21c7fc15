import EvmBridge.FixedBytes
import EvmBridge.Proofs.JsonReading

/-!
# Hexadecimal text is read back

Byte strings and quantities are written in one way and read in several. Among these is the way in
which they are written: `Hex.decode_encode` and `Quantity.decode_encode`.
-/

namespace EvmBridge

namespace Hex

theorem ofDigits?_digits (bs : Bytes) : ofDigits? (digits bs) = some bs := by
  induction bs with
  | nil => rfl
  | cons b bs ih =>
      have hb := b.toNat_lt
      have hhigh := Doc.value?_digitChar (b.toNat / 16) (by omega)
      have hlow := Doc.value?_digitChar (b.toNat % 16) (by omega)
      have hbyte : UInt8.ofNat (16 * (b.toNat / 16) + b.toNat % 16) = b := by
        rw [Nat.div_add_mod, UInt8.ofNat_toNat]
      simp only [digits, digit, ofDigits?, hhigh, hlow, ih, bind, Option.bind, hbyte]

theorem decode_encode (bs : Bytes) : decode (encode bs) = .ok bs := by
  have hmark : unmarked (encode bs).toList = digits bs := by
    rw [encode, String.toList_ofList]
    rfl
  unfold decode
  rw [hmark, ofDigits?_digits]

/-- So different byte strings are written differently. -/
theorem encode_inj {as bs : Bytes} : encode as = encode bs ↔ as = bs := by
  refine ⟨fun h => ?_, congrArg encode⟩
  have hread := decode_encode as
  rw [h, decode_encode] at hread
  exact (Except.ok.inj hread).symm

end Hex

/-- A byte string of fixed length is read back, since it has the right length. -/
theorem FixedBytes.parse_toHex {n : Nat} (x : FixedBytes n) : parse n x.toHex = .ok x := by
  unfold parse toHex
  rw [Hex.decode_encode]
  exact dif_pos x.size_eq

theorem FixedBytes.toHex_inj {n : Nat} {x y : FixedBytes n} : x.toHex = y.toHex ↔ x = y := by
  refine ⟨fun h => ?_, congrArg toHex⟩
  have hx := parse_toHex x
  rw [h, parse_toHex] at hx
  exact (Except.ok.inj hx).symm

namespace Quantity

/-- A quantity is made of digits. -/
theorem mem_digits {n : Nat} {c : Char} (h : c ∈ digits n) : ∃ d < 16, c = Nat.digitChar d := by
  induction n using digits.induct with
  | case1 n hn =>
      rw [digits, if_pos hn] at h
      exact ⟨n, hn, List.mem_singleton.mp h⟩
  | case2 n hn ih =>
      rw [digits, if_neg hn] at h
      rcases List.mem_append.mp h with h | h
      · exact ih h
      · exact ⟨n % 16, Nat.mod_lt _ (by decide), List.mem_singleton.mp h⟩

theorem digits_ne_nil (n : Nat) : digits n ≠ [] := by
  unfold digits
  split <;> simp

/-- No digit is a sign or an underscore. -/
theorem digitChar_plain : ∀ d < 16, Nat.digitChar d ≠ '+' ∧ Nat.digitChar d ≠ '_' := by decide

theorem foldlM_push_digits (n : Nat) : (digits n).foldlM push 0 = some n := by
  -- along the digits, the last one first
  induction n using digits.induct with
  | case1 n hn =>
      rw [digits, if_pos hn]
      simp [push, Hex.digit, Doc.value?_digitChar n hn]
  | case2 n hn ih =>
      have hlast := Doc.value?_digitChar (n % 16) (Nat.mod_lt _ (by decide))
      rw [digits, if_neg hn, List.foldlM_append, ih]
      simp only [List.foldlM_cons, List.foldlM_nil, push, Hex.digit, hlast, bind, Option.bind,
        Option.map_some, pure]
      rw [Nat.div_add_mod]

theorem unsigned_digits (n : Nat) : unsigned (digits n) = digits n := by
  cases hd : digits n with
  | nil => rfl
  | cons c cs =>
      obtain ⟨d, hlt, rfl⟩ := mem_digits (hd ▸ List.mem_cons_self : c ∈ digits n)
      unfold unsigned
      split
      · rename_i heq
        exact absurd (List.cons.inj heq).1 (digitChar_plain d hlt).1
      · rfl

theorem ofPlainDigits?_digits (n : Nat) : ofPlainDigits? (digits n) = some n := by
  have hfold := foldlM_push_digits n
  cases hd : digits n with
  | nil => exact absurd hd (digits_ne_nil n)
  | cons c cs =>
      rw [hd] at hfold
      exact hfold

theorem ofDigits?_digits (n : Nat) : ofDigits? (digits n) = some n := by
  have hfold := foldlM_push_digits n
  have hplain : (digits n).filter (· ≠ '_') = digits n := by
    refine List.filter_eq_self.mpr fun c hc => ?_
    obtain ⟨d, hlt, rfl⟩ := mem_digits hc
    exact decide_eq_true (digitChar_plain d hlt).2
  cases hd : digits n with
  | nil => exact absurd hd (digits_ne_nil n)
  | cons c cs =>
      rw [hd] at hfold hplain
      unfold ofDigits?
      split
      · rename_i heq
        cases heq
      · rename_i heq
        obtain ⟨d, hlt, hc⟩ := mem_digits (hd ▸ List.mem_cons_self : c ∈ digits n)
        rw [(List.cons.inj heq).1] at hc
        exact absurd hc.symm (digitChar_plain d hlt).2
      · rw [hplain]
        exact hfold

theorem unmarked_encode (n : Nat) : Hex.unmarked (encode n).toList = digits n := by
  rw [encode, String.toList_ofList]
  rfl

theorem decode_encode (n : Nat) : decode (encode n) = .ok n := by
  have hread : ofDigits? (unsigned (digits n)) = some n := by
    rw [unsigned_digits, ofDigits?_digits]
  unfold decode
  rw [unmarked_encode]
  cases hd : digits n with
  | nil => exact absurd hd (digits_ne_nil n)
  | cons c cs =>
      rw [hd] at hread
      simp only [hread]

theorem encode_inj {m n : Nat} : encode m = encode n ↔ m = n := by
  refine ⟨fun h => ?_, congrArg encode⟩
  have hread := decode_encode m
  rw [h, decode_encode] at hread
  exact (Except.ok.inj hread).symm

/-- A number of 64 bits is in range. -/
theorem decodeWord_encode (n : UInt64) : decodeWord (encode n.toNat) = .ok n := by
  have hread : ofPlainDigits? (unsigned (digits n.toNat)) = some n.toNat := by
    rw [unsigned_digits, ofPlainDigits?_digits]
  unfold decodeWord
  rw [unmarked_encode]
  cases hd : digits n.toNat with
  | nil => exact absurd hd (digits_ne_nil n.toNat)
  | cons c cs =>
      rw [hd] at hread
      simp only [hread, if_pos n.toNat_lt_size, UInt64.ofNat_toNat]

end Quantity

end EvmBridge
