import EvmBridge.Proofs.WordQuantities

/-!
# What hexadecimal text is accepted

Which texts name a byte string, which byte string they name, and which spellings of a quantity
name the same number. The digits are listed here once more (`Hex.IsDigit`), so that the answers do
not lean on the function that reads a digit:

* `Hex.IsDigits`: an even number of digits of either case. These are the texts that `Hex.decode`
  accepts, and `Hex.encode` gives their digits back in lowercase;
* `FixedBytes.parse_eq_ok`: addresses and hashes are the byte strings of their length;
* `Quantity.encode_leads`: a quantity is written without leading zeros;
* `Quantity.decode_of_toLower`, `Quantity.decode_of_zeros`: it is read with any, and in either
  case.
-/

namespace EvmBridge

namespace Hex

/-! ## One digit -/

/-- A hexadecimal digit of either case. -/
def IsDigit (c : Char) : Prop := c ∈ "0123456789abcdefABCDEF".toList

instance (c : Char) : Decidable (IsDigit c) := by
  unfold IsDigit
  infer_instance

theorem value?_of_isDigit {c : Char} (h : IsDigit c) :
    ∃ v < 16, value? c = some v ∧ digit v = c.toLower := by
  have hall : "0123456789abcdefABCDEF".toList.all fun c =>
      (value? c).any fun v => v < 16 ∧ digit v = c.toLower := by decide
  obtain ⟨v, hvalue, hv⟩ := (Option.any_eq_true _ _).mp (List.all_eq_true.mp hall c h)
  obtain ⟨hlt, hdigit⟩ := of_decide_eq_true hv
  exact ⟨v, hlt, hvalue, hdigit⟩

/-- No digit is further up than ASCII, and no letter that has another case. -/
theorem beyond_ascii {c : Char} (h : 128 ≤ c.toNat) : value? c = none ∧ c.toLower = c := by
  have hval : 128 ≤ c.val.toNat := h
  constructor
  · unfold value?
    simp only [Char.le_def, UInt32.le_iff_toNat_le]
    rw [if_neg, if_neg, if_neg] <;> rintro ⟨-, hle⟩ <;> revert hle <;> simp <;> omega
  · unfold Char.toLower
    refine dif_neg ?_
    rintro ⟨-, hle⟩
    rw [UInt32.le_iff_toNat_le] at hle
    revert hle
    simp
    omega

/-- A fact about single characters that ASCII and the rest share. -/
theorem char_cases {p : Char → Prop} (hascii : ∀ k < 128, p (Char.ofNat k))
    (hrest : ∀ c : Char, 128 ≤ c.toNat → p c) (c : Char) : p c := by
  by_cases h : c.toNat < 128
  · have hc := hascii c.toNat h
    rwa [Char.ofNat_toNat] at hc
  · exact hrest c (by omega)

theorem isDigit_of_value? {c : Char} : (value? c).isSome → IsDigit c := by
  refine char_cases (p := fun c => (value? c).isSome → IsDigit c) (by decide) ?_ c
  intro c hc h
  rw [(beyond_ascii hc).1] at h
  cases h

/-- The case of a digit is of no account. -/
theorem value?_toLower (c : Char) : value? c.toLower = value? c := by
  refine char_cases (p := fun c => value? c.toLower = value? c) (by decide) ?_ c
  intro c hc
  rw [(beyond_ascii hc).2]

/-! ## Byte strings -/

/-- An even number of digits. -/
def IsDigits (cs : List Char) : Prop := cs.length % 2 = 0 ∧ ∀ c ∈ cs, IsDigit c

/-- Two digits make one byte, and the byte has these two digits. -/
theorem digits_cons_ofNat {h l : Nat} (hh : h < 16) (hl : l < 16) (bs : Bytes) :
    digits (UInt8.ofNat (16 * h + l) :: bs) = digit h :: digit l :: digits bs := by
  have hbyte : (UInt8.ofNat (16 * h + l)).toNat = 16 * h + l := by
    rw [UInt8.toNat_ofNat']
    omega
  have hhigh : (16 * h + l) / 16 = h := by omega
  have hlow : (16 * h + l) % 16 = l := by omega
  rw [digits, hbyte, hhigh, hlow]

theorem ofDigits?_of_isDigits {cs : List Char} (h : IsDigits cs) :
    ∃ bs, ofDigits? cs = some bs ∧ digits bs = cs.map Char.toLower := by
  -- two digits at a time, as the reader goes
  induction cs using ofDigits?.induct with
  | case1 => exact ⟨[], rfl, rfl⟩
  | case2 c => exact absurd h.1 (by simp)
  | case3 high low rest ih =>
      obtain ⟨hlen, hall⟩ := h
      have hrest : IsDigits rest := by
        refine ⟨?_, fun c hc => hall c (by simp [hc])⟩
        simp only [List.length_cons] at hlen
        omega
      obtain ⟨a, ha, hhigh, hda⟩ := value?_of_isDigit (hall high (by simp))
      obtain ⟨b, hb, hlow, hdb⟩ := value?_of_isDigit (hall low (by simp))
      obtain ⟨bs, hbs, hdigits⟩ := ih hrest
      refine ⟨UInt8.ofNat (16 * a + b) :: bs, ?_, ?_⟩
      · simp [ofDigits?, hhigh, hlow, hbs]
      · rw [digits_cons_ofNat ha hb, hda, hdb, hdigits]
        rfl

theorem isDigits_of_ofDigits? {cs : List Char} {bs : Bytes} (h : ofDigits? cs = some bs) :
    IsDigits cs := by
  induction cs using ofDigits?.induct generalizing bs with
  | case1 => exact ⟨rfl, by simp⟩
  | case2 c => cases h
  | case3 high low rest ih =>
      obtain ⟨a, hhigh, h⟩ := Option.bind_eq_some_iff.mp h
      obtain ⟨b, hlow, h⟩ := Option.bind_eq_some_iff.mp h
      obtain ⟨bs, hrest, -⟩ := Option.bind_eq_some_iff.mp h
      obtain ⟨hlen, hall⟩ := ih hrest
      have hhigh : IsDigit high := isDigit_of_value? (by rw [hhigh]; rfl)
      have hlow : IsDigit low := isDigit_of_value? (by rw [hlow]; rfl)
      refine ⟨?_, fun c hc => ?_⟩
      · simp only [List.length_cons]
        omega
      · rcases List.mem_cons.mp hc with rfl | hc
        · exact hhigh
        · rcases List.mem_cons.mp hc with rfl | hc
          · exact hlow
          · exact hall c hc

theorem decode_eq_ok {s : String} {bs : Bytes} :
    decode s = .ok bs ↔ ofDigits? (unmarked s.toList) = some bs := by
  unfold decode
  split <;> simp_all

/-- What `Hex.decode` makes of one text. -/
structure Reads (s : String) : Prop where
  /-- It accepts an even number of digits behind the mark, -/
  accepts : (∃ bs, decode s = .ok bs) ↔ IsDigits (unmarked s.toList)
  /-- of which it loses nothing but their case. -/
  lowered : ∀ bs, decode s = .ok bs →
    encode bs = String.ofList ('0' :: 'x' :: (unmarked s.toList).map Char.toLower)
  /-- Where it fails, it quotes the whole text. -/
  quotes : ∀ fault, decode s = .error fault → fault = .invalidHex s
  /-- A byte string of length `n` is any byte string that has this length. -/
  fixed : ∀ n (x : FixedBytes n), FixedBytes.parse n s = .ok x ↔ decode s = .ok x.bytes

theorem parse_eq_ok {n : Nat} {s : String} {x : FixedBytes n} :
    FixedBytes.parse n s = .ok x ↔ decode s = .ok x.bytes := by
  unfold FixedBytes.parse
  cases hs : decode s with
  | error fault => simp [bind, Except.bind]
  | ok bs =>
      simp only [bind, Except.bind, FixedBytes.ofBytes, Except.ok.injEq]
      split
      · simp only [Except.ok.injEq]
        exact FixedBytes.ext_iff
      · rename_i hlen
        simp only [reduceCtorEq, false_iff]
        rintro rfl
        exact hlen x.size_eq

theorem reads (s : String) : Reads s where
  accepts := by
    constructor
    · rintro ⟨bs, h⟩
      exact isDigits_of_ofDigits? (decode_eq_ok.mp h)
    · intro h
      obtain ⟨bs, hbs, -⟩ := ofDigits?_of_isDigits h
      exact ⟨bs, decode_eq_ok.mpr hbs⟩
  lowered := by
    intro bs h
    have hread := decode_eq_ok.mp h
    obtain ⟨bs', hbs', hdigits⟩ := ofDigits?_of_isDigits (isDigits_of_ofDigits? hread)
    rw [hread] at hbs'
    cases hbs'
    rw [encode, hdigits]
  quotes := by
    intro fault h
    unfold decode at h
    split at h <;> cases h
    rfl
  fixed := fun _ _ => parse_eq_ok

end Hex

namespace Quantity

/-! ## Quantities -/

/-- Only zero begins with a zero. -/
theorem eq_zero_of_digits {n : Nat} {cs : List Char} (h : digits n = '0' :: cs) : n = 0 := by
  induction n using digits.induct generalizing cs with
  | case1 n hn =>
      have hall : ∀ n < 16, Hex.digit n = '0' → n = 0 := by decide
      rw [digits, if_pos hn] at h
      exact hall n hn (List.cons.inj h).1
  | case2 n hn ih =>
      rw [digits, if_neg hn] at h
      obtain ⟨c, rest, hd⟩ := List.exists_cons_of_ne_nil (digits_ne_nil (n / 16))
      rw [hd] at h
      have hzero : n / 16 = 0 := ih (hd.trans (by rw [(List.cons.inj h).1]))
      omega

/-- How one number is written. -/
structure Writes (n : Nat) : Prop where
  /-- A digit stands behind the mark, and if this is a zero then nothing else does. -/
  leads : ∃ c cs, (encode n).toList = '0' :: 'x' :: c :: cs ∧ (c = '0' → cs = [])
  /-- It is read back, -/
  decode : decode (encode n) = .ok n
  /-- also where 64 bits are wanted, if it has no more. -/
  word : n < UInt64.size → decodeWord (encode n) = .ok (UInt64.ofNat n)
  large : UInt64.size ≤ n → decodeWord (encode n) = .error (.outOfRange (encode n))

theorem writes (n : Nat) : Writes n where
  leads := by
    obtain ⟨c, cs, hd⟩ := List.exists_cons_of_ne_nil (digits_ne_nil n)
    refine ⟨c, cs, by rw [encode, String.toList_ofList, hd], ?_⟩
    rintro rfl
    rw [eq_zero_of_digits hd, digits, if_pos (by decide)] at hd
    exact (List.cons.inj hd).2.symm
  decode := decode_encode n
  word := by
    intro h
    have hread := decodeWord_encode (UInt64.ofNat n)
    rwa [UInt64.toNat_ofNat_of_lt' h] at hread
  large := decodeWord_of_large (decode_encode n)

/-! ## Spellings of one number -/

theorem toLower_toLower (c : Char) : c.toLower.toLower = c.toLower := by
  refine Hex.char_cases (p := fun c => c.toLower.toLower = c.toLower) (by decide) ?_ c
  intro c hc
  rw [(Hex.beyond_ascii hc).2, (Hex.beyond_ascii hc).2]

/-- The characters that the reader looks for are no capital letters. -/
theorem toLower_eq (c : Char) :
    (c.toLower = '0' ↔ c = '0') ∧ (c.toLower = '+' ↔ c = '+') ∧ (c.toLower = '_' ↔ c = '_') ∧
      (c.toLower = 'x' ↔ c = 'x' ∨ c = 'X') := by
  refine Hex.char_cases (p := fun c => (c.toLower = '0' ↔ c = '0') ∧ (c.toLower = '+' ↔ c = '+') ∧
    (c.toLower = '_' ↔ c = '_') ∧ (c.toLower = 'x' ↔ c = 'x' ∨ c = 'X')) (by decide) ?_ c
  intro c hc
  have hX : c ≠ 'X' := by
    rintro rfl
    exact absurd hc (by decide)
  simp [(Hex.beyond_ascii hc).2, hX]

theorem unmarked_cons_cons (c d : Char) (rest : List Char) :
    Hex.unmarked (c :: d :: rest) =
      if c.toLower = '0' ∧ d.toLower = 'x' then rest else c :: d :: rest := by
  simp only [(toLower_eq c).1, (toLower_eq d).2.2.2]
  unfold Hex.unmarked
  split
  · rename_i heq
    cases heq
    rfl
  · rename_i heq
    cases heq
    rfl
  · rename_i hx hX
    refine (if_neg ?_).symm
    rintro ⟨rfl, rfl | rfl⟩
    · exact hx rest rfl
    · exact hX rest rfl

theorem unmarked_map_toLower (cs : List Char) :
    Hex.unmarked (cs.map Char.toLower) = (Hex.unmarked cs).map Char.toLower := by
  match cs with
  | [] => rfl
  | [c] => simp [Hex.unmarked]
  | c :: d :: rest =>
      simp only [List.map_cons, unmarked_cons_cons, toLower_toLower]
      split <;> rfl

theorem unsigned_cons (c : Char) (cs : List Char) :
    unsigned (c :: cs) = if c.toLower = '+' then cs else c :: cs := by
  simp only [(toLower_eq c).2.1]
  unfold unsigned
  split
  · rename_i heq
    cases heq
    rfl
  · rename_i hplus
    refine (if_neg ?_).symm
    rintro rfl
    exact hplus cs rfl

theorem unsigned_map_toLower (cs : List Char) :
    unsigned (cs.map Char.toLower) = (unsigned cs).map Char.toLower := by
  cases cs with
  | nil => rfl
  | cons c cs =>
      simp only [List.map_cons, unsigned_cons, toLower_toLower]
      split <;> rfl

theorem ofDigits?_cons (c : Char) (cs : List Char) :
    ofDigits? (c :: cs) =
      if c = '_' then none else ((c :: cs).filter (· ≠ '_')).foldlM push 0 := by
  by_cases hc : c = '_'
  · subst hc
    rfl
  · rw [if_neg hc]
    unfold ofDigits?
    split
    · rename_i heq
      cases heq
    · rename_i heq
      exact absurd (List.cons.inj heq).1 hc
    · rfl

theorem ofDigits?_map_toLower (cs : List Char) :
    ofDigits? (cs.map Char.toLower) = ofDigits? cs := by
  have hfilter : ∀ cs : List Char,
      (cs.map Char.toLower).filter (· ≠ '_') = (cs.filter (· ≠ '_')).map Char.toLower := by
    intro cs
    rw [List.filter_map]
    congr 1
    refine List.filter_congr fun c _ => ?_
    simp [(toLower_eq c).2.2.1]
  have hpush : ∀ acc c, push acc (Char.toLower c) = push acc c := by
    intro acc c
    rw [push, Hex.value?_toLower]
    rfl
  cases cs with
  | nil => rfl
  | cons c cs =>
      rw [List.map_cons, ofDigits?_cons, ofDigits?_cons, ← List.map_cons, hfilter,
        List.foldlM_map]
      simp only [hpush, (toLower_eq c).2.2.1]

/-- Two texts that differ in the case of letters only, those of the mark among them, name the same
number. -/
theorem decode_of_toLower {s t : String} {n : Nat}
    (h : s.toList.map Char.toLower = t.toList.map Char.toLower) (hs : decode s = .ok n) :
    decode t = .ok n := by
  have hbody : (body s).map Char.toLower = (body t).map Char.toLower := by
    unfold body
    rw [← unsigned_map_toLower, ← unmarked_map_toLower, h, unmarked_map_toLower,
      unsigned_map_toLower]
  rw [decode_ok] at hs ⊢
  rw [← ofDigits?_map_toLower, ← hbody, ofDigits?_map_toLower, hs]

/-- A zero before a quantity. -/
theorem ofDigits?_zero_cons {cs : List Char} {n : Nat} (h : ofDigits? cs = some n) :
    ofDigits? ('0' :: cs) = some n := by
  cases cs with
  | nil => cases h
  | cons c cs =>
      rw [ofDigits?_cons] at h
      split at h
      · cases h
      · rw [ofDigits?_cons, if_neg (by decide), List.filter_cons_of_pos (by decide)]
        exact h

/-- Zeros behind the mark and the sign are of no account. -/
theorem decode_of_zeros {s t : String} {n : Nat} (k : Nat)
    (h : body t = List.replicate k '0' ++ body s) (hs : decode s = .ok n) : decode t = .ok n := by
  rw [decode_ok] at hs ⊢
  rw [h]
  clear h
  induction k with
  | zero => exact hs
  | succ k ih => exact ofDigits?_zero_cons ih

end Quantity

/-! ## The codecs -/

/-- Byte strings are read back, and `Hex.decode` takes just the texts of an even number of digits,
whose digits it keeps; numbers are read back, and `Quantity.decode` is blind to the case of letters
and to leading zeros. -/
theorem hexTexts_exact :
    (∀ bs, Hex.decode (Hex.encode bs) = .ok bs) ∧ (∀ s, Hex.Reads s) ∧
    (∀ n, Quantity.Writes n) ∧
    (∀ s t n, s.toList.map Char.toLower = t.toList.map Char.toLower →
      Quantity.decode s = .ok n → Quantity.decode t = .ok n) ∧
    (∀ s t k n, Quantity.body t = List.replicate k '0' ++ Quantity.body s →
      Quantity.decode s = .ok n → Quantity.decode t = .ok n) :=
  ⟨Hex.decode_encode, Hex.reads, Quantity.writes,
    fun _ _ _ => Quantity.decode_of_toLower, fun _ _ k _ => Quantity.decode_of_zeros k⟩

/-- Some bytes and some numbers, among them those on either side of the largest word. -/
theorem hexTexts_exact_mixed :
    Hex.encode [171, 205] = "0xabcd" ∧
    (∀ x : Address, FixedBytes.parse 20 "0XAbcD" ≠ .ok x) ∧
    Quantity.decodeWord (Quantity.encode 18446744073709551615) = .ok 18446744073709551615 ∧
    Quantity.decodeWord (Quantity.encode 18446744073709551616) =
      .error (.outOfRange (Quantity.encode 18446744073709551616)) ∧
    Quantity.decode "0XAbcD" = .ok 43981 ∧ Quantity.decode "+000abcd" = .ok 43981 := by
  obtain ⟨-, hreads, hwrites, hcase, hzeros⟩ := hexTexts_exact
  have hbytes : Hex.decode "0XAbcD" = .ok [171, 205] := rfl
  have hnumber : Quantity.decode "0xabcd" = .ok 43981 := rfl
  refine ⟨?_, ?_, (hwrites _).word (by decide), (hwrites _).large (by decide),
    hcase _ _ _ (by decide) hnumber, hzeros _ _ 3 _ (by decide) hnumber⟩
  · exact (hreads "0XAbcD").lowered _ hbytes
  · intro x hx
    have hsame := hbytes.symm.trans (((hreads "0XAbcD").fixed 20 x).mp hx)
    have hlen := congrArg List.length (Except.ok.inj hsame)
    rw [x.size_eq] at hlen
    exact absurd hlen (by decide)

end EvmBridge
