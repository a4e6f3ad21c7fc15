import EvmBridge.Proofs.HexReading

/-!
# Quantities of 64 bits

`Quantity.decodeWord` is meant to be `Quantity.decode` for those who want 64 bits only: the same
texts, with `outOfRange` where the number is too large. On most texts it is, and `Restricts` says
so of one text. It parts from `Quantity.decode` in two ways, since behind the mark it takes every
text that it cannot read for one whose number is too large:

* a text that is no quantity is called out of range, not ill-written;
* an underscore among the digits, of no account to `Quantity.decode`, is not allowed.

`decodeWord_restricts` says that there is no third way.
-/

namespace EvmBridge

namespace Quantity

/-! ## Underscores -/

theorem ne_underscore_of_push {acc n : Nat} {c : Char} (h : push acc c = some n) : c ≠ '_' := by
  rintro rfl
  have hnone : Hex.value? '_' = none := by decide
  rw [push, hnone] at h
  cases h

theorem not_mem_of_foldlM_push {cs : List Char} {acc n : Nat} (h : cs.foldlM push acc = some n) :
    '_' ∉ cs := by
  induction cs generalizing acc with
  | nil => exact List.not_mem_nil
  | cons c cs ih =>
      obtain ⟨next, hpush, hrest⟩ := Option.bind_eq_some_iff.mp h
      intro hmem
      rcases List.mem_cons.mp hmem with heq | hmem
      · exact ne_underscore_of_push hpush heq.symm
      · exact ih hrest hmem

/-- Digits without underscores are read alike. -/
theorem ofDigits?_of_not_mem {cs : List Char} (h : '_' ∉ cs) :
    ofDigits? cs = ofPlainDigits? cs := by
  have hplain : cs.filter (· ≠ '_') = cs := by
    refine List.filter_eq_self.mpr fun c hc => decide_eq_true ?_
    rintro rfl
    exact h hc
  unfold ofDigits?
  split
  · rfl
  · exact absurd List.mem_cons_self h
  · rename_i hne _
    rw [hplain]
    cases cs with
    | nil => exact absurd rfl hne
    | cons c cs => rfl

/-- A run of digits that must be plain is a run of digits that happens to be. -/
theorem ofPlainDigits?_eq_some {cs : List Char} {n : Nat} :
    ofPlainDigits? cs = some n ↔ ofDigits? cs = some n ∧ '_' ∉ cs := by
  constructor
  · intro h
    have hplain : '_' ∉ cs := by
      cases cs with
      | nil => exact List.not_mem_nil
      | cons c cs => exact not_mem_of_foldlM_push h
    exact ⟨(ofDigits?_of_not_mem hplain).trans h, hplain⟩
  · rintro ⟨h, hplain⟩
    exact (ofDigits?_of_not_mem hplain).symm.trans h

/-! ## Mark and sign -/

/-- What is read as digits: the text without its mark and its sign. -/
def body (s : String) : List Char := unsigned (Hex.unmarked s.toList)

/-- Neither a mark nor a sign has an underscore. -/
theorem underscore_mem_body {s : String} : '_' ∈ body s ↔ '_' ∈ s.toList := by
  have hunsigned : ∀ cs, '_' ∈ unsigned cs ↔ '_' ∈ cs := by
    intro cs
    unfold unsigned
    split <;> simp
  have hunmarked : ∀ cs, '_' ∈ Hex.unmarked cs ↔ '_' ∈ cs := by
    intro cs
    unfold Hex.unmarked
    split <;> simp
  exact (hunsigned _).trans (hunmarked _)

theorem body_of_unmarked_nil {s : String} (h : Hex.unmarked s.toList = []) : body s = [] := by
  rw [body, h]
  rfl

/-- The reader in terms of the body alone, since an empty body has no digits. -/
theorem decode_eq (s : String) :
    decode s = (match ofDigits? (body s) with
      | some n => .ok n
      | none => .error (.invalidHex s)) := by
  unfold decode
  split
  · rename_i hnil
    rw [body_of_unmarked_nil hnil]
    rfl
  · rfl

theorem decode_ok {s : String} {n : Nat} : decode s = .ok n ↔ ofDigits? (body s) = some n := by
  rw [decode_eq]
  split <;> simp_all

theorem decode_invalidHex {s : String} :
    decode s = .error (.invalidHex s) ↔ ofDigits? (body s) = none := by
  rw [decode_eq]
  split <;> simp_all

/-- A quantity has digits. -/
theorem unmarked_ne_nil_of_decode {s : String} {n : Nat} (h : decode s = .ok n) :
    Hex.unmarked s.toList ≠ [] := by
  intro hnil
  rw [decode_ok, body_of_unmarked_nil hnil] at h
  cases h

/-- The reader of 64 bits on a text that has something behind the mark. -/
theorem decodeWord_eq {s : String} (h : Hex.unmarked s.toList ≠ []) :
    decodeWord s = (match ofPlainDigits? (body s) with
      | some n => if n < UInt64.size then .ok (UInt64.ofNat n) else .error (.outOfRange s)
      | none => .error (.outOfRange s)) := by
  unfold decodeWord
  split
  · rename_i hnil
    exact absurd hnil h
  · rfl

/-! ## Where the two readers agree -/

/-- On this text `decodeWord` is `decode` with numbers of more than 64 bits left out. -/
structure Restricts (s : String) : Prop where
  /-- The same number, if it has 64 bits. -/
  ok : ∀ m, decodeWord s = .ok m ↔ decode s = .ok m.toNat
  /-- Only a number can be too large. -/
  outOfRange : decodeWord s = .error (.outOfRange s) ↔ ∃ n, decode s = .ok n ∧ UInt64.size ≤ n
  /-- Both refuse what is no quantity, and with the same fault. -/
  invalidHex : decodeWord s = .error (.invalidHex s) ↔ decode s = .error (.invalidHex s)

/-- Nothing behind the mark, or a quantity that has no underscore unless it is too large anyway. -/
def Plain (s : String) : Prop :=
  Hex.unmarked s.toList = [] ∨ ∃ n, decode s = .ok n ∧ (UInt64.size ≤ n ∨ '_' ∉ s.toList)

/-- Whatever else is wrong with a text, it is called out of range. -/
theorem decodeWord_of_not_plain {s : String} (h : ¬ Plain s) :
    decodeWord s = .error (.outOfRange s) := by
  rw [decodeWord_eq fun hnil => h (.inl hnil)]
  split
  · rename_i n hread
    obtain ⟨hdigits, hunderscore⟩ := ofPlainDigits?_eq_some.mp hread
    refine absurd (.inr ⟨n, decode_ok.mpr hdigits, .inr ?_⟩) h
    exact fun hmem => hunderscore (underscore_mem_body.mpr hmem)
  · rfl

theorem decodeWord_of_nil {s : String} (h : Hex.unmarked s.toList = []) :
    decodeWord s = .error (.invalidHex s) := by
  unfold decodeWord
  split
  · rfl
  · rename_i hne
    exact absurd h hne

theorem decodeWord_of_large {s : String} {n : Nat} (h : decode s = .ok n)
    (hlarge : UInt64.size ≤ n) : decodeWord s = .error (.outOfRange s) := by
  rw [decodeWord_eq (unmarked_ne_nil_of_decode h)]
  split
  · rename_i m hread
    have hm : m = n :=
      Option.some.inj ((ofPlainDigits?_eq_some.mp hread).1.symm.trans (decode_ok.mp h))
    rw [if_neg (by omega)]
  · rfl

theorem decodeWord_of_small {s : String} {n : Nat} (h : decode s = .ok n) (hsmall : n < UInt64.size)
    (hplain : '_' ∉ s.toList) : decodeWord s = .ok (UInt64.ofNat n) := by
  have hread : ofPlainDigits? (body s) = some n :=
    ofPlainDigits?_eq_some.mpr
      ⟨decode_ok.mp h, fun hmem => hplain (underscore_mem_body.mp hmem)⟩
  rw [decodeWord_eq (unmarked_ne_nil_of_decode h), hread]
  exact if_pos hsmall

theorem restricts_of_nil {s : String} (h : Hex.unmarked s.toList = []) : Restricts s := by
  have hdecode : decode s = .error (.invalidHex s) := by
    rw [decode_invalidHex, body_of_unmarked_nil h]
    rfl
  constructor <;> simp [decodeWord_of_nil h, hdecode]

theorem restricts_of_large {s : String} {n : Nat} (h : decode s = .ok n)
    (hlarge : UInt64.size ≤ n) : Restricts s := by
  have hword := decodeWord_of_large h hlarge
  refine ⟨fun m => ?_, ?_, ?_⟩
  · have hm := m.toNat_lt_size
    simp only [hword, h, reduceCtorEq, Except.ok.injEq, false_iff]
    omega
  · simp [hword, h, hlarge]
  · simp [hword, h]

theorem restricts_of_small {s : String} {n : Nat} (h : decode s = .ok n) (hsmall : n < UInt64.size)
    (hplain : '_' ∉ s.toList) : Restricts s := by
  have hword := decodeWord_of_small h hsmall hplain
  refine ⟨fun m => ?_, ?_, ?_⟩
  · simp only [hword, h, Except.ok.injEq]
    constructor
    · rintro rfl
      exact (UInt64.toNat_ofNat_of_lt' hsmall).symm
    · rintro rfl
      exact UInt64.ofNat_toNat
  · simp [hword, h, hsmall]
  · simp [hword, h]

/-- The two readers agree on the plain texts and on no other, and where they part the text is
called out of range. -/
theorem decodeWord_restricts (s : String) :
    (Restricts s ↔ Plain s) ∧ (¬ Plain s → decodeWord s = .error (.outOfRange s)) := by
  refine ⟨⟨fun hagree => ?_, fun hplain => ?_⟩, decodeWord_of_not_plain⟩
  · by_cases hplain : Plain s
    · exact hplain
    · obtain ⟨n, hn, hlarge⟩ := hagree.outOfRange.mp (decodeWord_of_not_plain hplain)
      exact .inr ⟨n, hn, .inl hlarge⟩
  · rcases hplain with hnil | ⟨n, hn, hcase⟩
    · exact restricts_of_nil hnil
    · by_cases hsmall : n < UInt64.size
      · rcases hcase with hlarge | hunderscore
        · omega
        · exact restricts_of_small hn hsmall hunderscore
      · exact restricts_of_large hn (by omega)

/-- No quantity, and called out of range; and a quantity of 64 bits that is called so too. -/
theorem decodeWord_not_restricts :
    (decode "0xzz" = .error (.invalidHex "0xzz") ∧
      decodeWord "0xzz" = .error (.outOfRange "0xzz")) ∧
    (decode "0x1_0" = .ok 16 ∧ decodeWord "0x1_0" = .error (.outOfRange "0x1_0")) ∧
    ¬ Restricts "0xzz" ∧ ¬ Restricts "0x1_0" := by
  have hzz : decodeWord "0xzz" = .error (.outOfRange "0xzz") := by rfl
  have hunderscore : decodeWord "0x1_0" = .error (.outOfRange "0x1_0") := by rfl
  refine ⟨⟨rfl, hzz⟩, ⟨rfl, hunderscore⟩, fun hagree => ?_, fun hagree => ?_⟩
  · obtain ⟨n, hn, -⟩ := hagree.outOfRange.mp hzz
    have hdecode : decode "0xzz" = .error (.invalidHex "0xzz") := by rfl
    rw [hdecode] at hn
    cases hn
  · obtain ⟨n, hn, hlarge⟩ := hagree.outOfRange.mp hunderscore
    have hdecode : decode "0x1_0" = .ok 16 := by rfl
    rw [hdecode] at hn
    cases hn
    exact absurd hlarge (by decide)

end Quantity

end EvmBridge
