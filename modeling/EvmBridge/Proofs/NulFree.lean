import EvmBridge.Buffers
import EvmBridge.Proofs.JsonReading

/-!
# Nothing is cut at the boundary

A text that crosses the boundary ends at its first zero byte. No value is written with a NUL
character, whatever texts it holds (`Json.nul_render`), and only that character is encoded with a
zero byte (`Utf8.zero_encode`). So what one side writes is what the other side reads
(`BufferError.readText_encode`).
-/

namespace EvmBridge

/-! ## Written values -/

namespace Binary64

theorem nul_toDigits (n : Nat) : '\x00' ∉ Nat.toDigits 10 n := fun h =>
  absurd (Nat.isDigit_of_mem_toDigits (by omega) (by omega) h) (by decide)

theorem nul_layout {digits : List Char} (h : '\x00' ∉ digits) (place : Int) :
    '\x00' ∉ layout digits place := by
  have htake : ∀ k, '\x00' ∉ digits.take k := fun k hk => h (List.mem_of_mem_take hk)
  have hdrop : ∀ k, '\x00' ∉ digits.drop k := fun k hk => h (List.mem_of_mem_drop hk)
  unfold layout
  dsimp only
  split
  · simp [h]
  · split
    · simp [htake, hdrop]
    · split
      · simp [h]
      · have hsigned : ∀ e : Int, '\x00' ∉ signed e := fun e => by
          unfold signed
          split <;> simp [nul_toDigits]
        split
        · simp [hsigned]
        · simpa [hsigned] using h
        · simpa [hsigned] using h

theorem nul_text (x : Binary64) : '\x00' ∉ x.text := by
  unfold text
  dsimp only
  split <;> split <;> simp [nul_layout (nul_toDigits _)]

end Binary64

namespace Json

/-- A NUL character is escaped, and no other is escaped with one. -/
theorem nul_escaped (c : Char) : '\x00' ∉ escaped c := by
  unfold escaped
  split
  · rename_i letter h
    unfold shorthand? at h
    split at h <;> cases h <;> decide
  · split
    · -- a control character is written with its number
      have hdigit : ∀ d < 16, '\x00' ≠ Nat.digitChar d := by decide
      have hlow : c.toNat < 0x20 := ‹_›
      simp [hdigit (c.toNat / 16) (by omega), hdigit (c.toNat % 16) (by omega)]
    · rename_i hlow
      intro h
      rw [← List.mem_singleton.mp h] at hlow
      exact hlow (by decide)

theorem nul_quotedChars (s : String) : '\x00' ∉ quotedChars s := by
  simp [quotedChars, nul_escaped]

theorem nul_numberChars (n : Number) : '\x00' ∉ numberChars n := by
  cases n with
  | int i =>
      cases i with
      | ofNat n =>
          rw [numberChars_ofNat]
          exact Binary64.nul_toDigits n
      | negSucc n => simp [numberChars_negSucc, Binary64.nul_toDigits]
  | real x => exact x.nul_text

mutual

theorem nul_chars : ∀ v : Json, '\x00' ∉ v.chars
  | .null | .bool true | .bool false => by decide
  | .num n => nul_numberChars n
  | .str s => nul_quotedChars s
  | .arr vs => by simp [chars, nul_itemChars vs]
  | .obj ms => by simp [chars, nul_memberChars ms]

theorem nul_itemChars : ∀ vs : List Json, '\x00' ∉ itemChars vs
  | [] => by decide
  | v :: vs => by simp [itemChars, nul_chars v, nul_moreItemChars vs]

theorem nul_moreItemChars : ∀ vs : List Json, '\x00' ∉ moreItemChars vs
  | [] => by decide
  | v :: vs => by simp [moreItemChars, nul_chars v, nul_moreItemChars vs]

theorem nul_memberChars : ∀ ms : List (String × Json), '\x00' ∉ memberChars ms
  | [] => by decide
  | (k, v) :: ms => by simp [memberChars, nul_quotedChars k, nul_chars v, nul_moreMemberChars ms]

theorem nul_moreMemberChars : ∀ ms : List (String × Json), '\x00' ∉ moreMemberChars ms
  | [] => by decide
  | (k, v) :: ms => by
      simp [moreMemberChars, nul_quotedChars k, nul_chars v, nul_moreMemberChars ms]

end

/-- **No value is written with a NUL character.** -/
theorem nul_render (v : Json) : '\x00' ∉ v.render.toList := by
  rw [render, String.toList_ofList]
  exact v.nul_chars

end Json

/-! ## Bytes of texts -/

namespace Utf8

/-- Only the NUL character is encoded with a zero byte: all bytes of longer sequences are marked. -/
theorem zero_encodeChar {c : Char} (h : 0 ∈ String.utf8EncodeChar c) : c = '\x00' := by
  have hne : ∀ n : Nat, 0 < n % 256 → (0 : UInt8) ≠ UInt8.ofNat n := by
    intro n hn he
    have hz := congrArg UInt8.toNat he
    rw [UInt8.toNat_ofNat'] at hz
    change 0 = n % 256 at hz
    omega
  rw [String.utf8EncodeChar.eq_1] at h
  split at h
  · by_cases hz : c.val.toNat = 0
    · exact Char.toNat_inj.mp hz
    · exact absurd (List.mem_singleton.mp h) (hne _ (by omega))
  · -- in longer sequences each byte is marked
    exfalso
    split at h
    · simp only [List.mem_cons, List.not_mem_nil, or_false] at h
      rcases h with h | h <;> exact hne _ (by omega) h
    · split at h <;> simp only [List.mem_cons, List.not_mem_nil, or_false] at h
      · rcases h with h | h | h <;> exact hne _ (by omega) h
      · rcases h with h | h | h | h <;> exact hne _ (by omega) h

theorem encode_eq (s : String) : encode s = s.toList.flatMap String.utf8EncodeChar := by
  have hbytes : s.toUTF8 = s.toList.utf8Encode := String.utf8Encode_toList.symm
  unfold encode
  rw [hbytes, List.utf8Encode, List.toList_data_toByteArray]

/-- No character takes more than four bytes. -/
theorem length_encode_le (s : String) : (encode s).length ≤ 4 * s.toList.length := by
  rw [encode_eq]
  induction s.toList with
  | nil => exact Nat.le_refl 0
  | cons c cs ih =>
      have hc : (String.utf8EncodeChar c).length ≤ 4 := by
        rw [String.length_utf8EncodeChar]
        exact Char.utf8Size_le_four c
      rw [List.flatMap_cons, List.length_append, List.length_cons]
      omega

/-- **A text without NUL characters has no zero byte.** -/
theorem zero_encode {s : String} (h : '\x00' ∉ s.toList) : 0 ∉ encode s := by
  rw [encode_eq]
  intro hz
  obtain ⟨c, hc, hbyte⟩ := List.mem_flatMap.mp hz
  rw [zero_encodeChar hbyte] at hc
  exact h hc

/-- A text up to its first NUL character. -/
def beforeNul (s : String) : String := String.ofList (s.toList.takeWhile fun c => c ≠ '\x00')

/-- What is read of a text that was written with all its characters. -/
theorem untilNul_encode_eq (s : String) : Bytes.untilNul (encode s) = encode (beforeNul s) := by
  rw [encode_eq, encode_eq, beforeNul, String.toList_ofList]
  unfold Bytes.untilNul
  induction s.toList with
  | nil => rfl
  | cons c cs ih =>
      by_cases hc : c = '\x00'
      · rw [hc]
        rfl
      · have hall : ∀ b ∈ String.utf8EncodeChar c, decide (b ≠ 0) = true := fun b hb =>
          decide_eq_true fun hz => hc (zero_encodeChar (hz ▸ hb))
        rw [List.flatMap_cons, List.takeWhile_append_of_pos hall, ih,
          List.takeWhile_cons_of_pos (by simpa using hc), List.flatMap_cons]

theorem beforeNul_eq {s : String} (h : '\x00' ∉ s.toList) : beforeNul s = s := by
  have hall : ∀ c ∈ s.toList, decide (c ≠ '\x00') = true := fun c hc =>
    decide_eq_true fun hz => h (hz ▸ hc)
  unfold beforeNul
  rw [← List.append_nil s.toList, List.takeWhile_append_of_pos hall, List.takeWhile_nil,
    List.append_nil, String.ofList_toList]

theorem beforeNul_append {s : String} (h : '\x00' ∉ s.toList) (t : String) :
    beforeNul (s ++ "\x00" ++ t) = s := by
  have hall : ∀ c ∈ s.toList, decide (c ≠ '\x00') = true := fun c hc =>
    decide_eq_true fun hz => h (hz ▸ hc)
  have hsplit : (s ++ "\x00" ++ t).toList = s.toList ++ '\x00' :: t.toList := by
    rw [String.toList_append, String.toList_append, List.append_assoc]
    rfl
  rw [beforeNul, hsplit, List.takeWhile_append_of_pos hall,
    List.takeWhile_cons_of_neg (by simp), List.append_nil, String.ofList_toList]

/-- A text without NUL characters is read to its end. -/
theorem untilNul_encode {s : String} (h : '\x00' ∉ s.toList) :
    Bytes.untilNul (encode s) = encode s := by
  rw [untilNul_encode_eq, beforeNul_eq h]

end Utf8

theorem BufferError.readText_encode {s : String} (h : '\x00' ∉ s.toList) :
    readText (some (Utf8.encode s)) = .ok s := by
  show (Utf8.decode (Bytes.untilNul (Utf8.encode s))).mapError BufferError.notText = _
  rw [Utf8.untilNul_encode h, Utf8.decode_encode]
  rfl

end EvmBridge
