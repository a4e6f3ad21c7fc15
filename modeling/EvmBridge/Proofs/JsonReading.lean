import EvmBridge.Codec.Basic
import EvmBridge.Proofs.SortedMap

/-!
# What is written can be read

`Json.render` writes a value, `Doc.parse` reads a text. What was written is read back as the same
value with the members of its objects sorted, as long as its numbers are integers of 64 bits and
it is not nested too deeply for the reader (`Doc.parse_render` and `Doc.toJson_ofJson`).

The reader is followed token by token. Each token lemma says what is left behind the token, so
that they can be chained along arrays and objects; only a number has to know what comes next.
-/

namespace EvmBridge

/-! ## Texts -/

namespace Doc

theorem value?_digitChar : ∀ d < 16, Hex.value? (Nat.digitChar d) = some d := by decide

/-- A character is read back from the way it stands in a text. -/
theorem stringTail_escaped (c : Char) (rest : List Char) :
    stringTail (Json.escaped c ++ rest) = (stringTail rest).map (push c) := by
  unfold Json.escaped
  split
  · rename_i letter h
    unfold Json.shorthand? at h
    split at h <;> cases h <;>
      (simp only [List.cons_append, List.nil_append]; rw [stringTail.eq_def]; rfl)
  · rename_i h
    split
    · rename_i hlow
      have hunit : unit? '0' '0' (Nat.digitChar (c.toNat / 16)) (Nat.digitChar (c.toNat % 16)) =
          some c.toNat := by
        have hzero : Hex.value? '0' = some 0 := by decide
        simp only [unit?, hzero, value?_digitChar (c.toNat / 16) (by omega),
          value?_digitChar (c.toNat % 16) (by omega), bind, Option.bind]
        congr 1
        omega
      have htrailing : isTrailing c.toNat = false := by simp [isTrailing]; omega
      have hleading : isLeading c.toNat = false := by simp [isLeading]; omega
      simp only [List.cons_append, List.nil_append]
      rw [stringTail.eq_def]
      simp [hunit, htrailing, hleading, Char.ofNat_toNat]
    · -- any other character stands for itself
      rename_i hlow
      have hquote : c ≠ '"' := by
        rintro rfl
        exact absurd h (by decide)
      have hback : c ≠ '\\' := by
        rintro rfl
        exact absurd h (by decide)
      simp only [List.cons_append, List.nil_append]
      rw [stringTail.eq_def]
      split <;> rename_i heq <;> cases heq
      · exact absurd rfl hquote
      · exact absurd rfl hback
      · exact absurd rfl hback
      · rw [if_neg (by simpa [hback] using hlow)]

theorem stringTail_escapedAll (cs rest : List Char) :
    stringTail (cs.flatMap Json.escaped ++ '"' :: rest) = some (some cs, rest) := by
  induction cs with
  | nil =>
      simp only [List.flatMap_nil, List.nil_append]
      rw [stringTail.eq_def]
      rfl
  | cons c cs ih =>
      rw [List.flatMap_cons, List.append_assoc, stringTail_escaped, ih]
      rfl

/-! ## Numbers -/

/-- What may follow a number: it does not go on. -/
def Stops (rest : List Char) : Prop :=
  ∀ c ∈ rest.head?, c.isDigit = false ∧ c ≠ '.' ∧ c ≠ 'e' ∧ c ≠ 'E'

theorem stops_cons {c : Char} {rest : List Char}
    (h : c.isDigit = false ∧ c ≠ '.' ∧ c ≠ 'e' ∧ c ≠ 'E') : Stops (c :: rest) := by
  intro c' hc
  cases hc
  exact h

theorem spanDigits_append {digits rest : List Char} (hd : ∀ c ∈ digits, c.isDigit = true)
    (hr : Stops rest) : spanDigits (digits ++ rest) = (digits, rest) := by
  have hstop : rest.takeWhile Char.isDigit = [] ∧ rest.dropWhile Char.isDigit = rest := by
    cases rest with
    | nil => exact ⟨rfl, rfl⟩
    | cons c rest =>
        have hc := (hr c rfl).1
        simp [hc]
  unfold spanDigits
  rw [List.takeWhile_append_of_pos hd, List.dropWhile_append_of_pos hd, hstop.1, hstop.2,
    List.append_nil]

theorem digitsValue_toDigits (n : Nat) : digitsValue (Nat.toDigits 10 n) = n := by
  have h := Nat.ofDigitChars_ten_toDigits (n := n)
  unfold Nat.ofDigitChars at h
  exact h

/-- Only zero is written with a zero in front. -/
theorem eq_zero_of_head? {n : Nat} (h : (Nat.toDigits 10 n).head? = some '0') : n = 0 := by
  induction n using Nat.strongRecOn with
  | ind n ih =>
      rw [Nat.toDigits_eq_if (by omega)] at h
      split at h
      · exact Nat.digitChar_eq_zero.mp (Option.some.inj h)
      · have hn : n / 10 = 0 := ih (n / 10) (by omega) (by
          rw [List.head?_append] at h
          cases hd : (Nat.toDigits 10 (n / 10)).head? with
          | none => exact absurd (List.head?_eq_none_iff.mp hd) Nat.toDigits_ne_nil
          | some c => rwa [hd] at h)
        omega

/-- The digits of a number are read as a whole, with nothing behind them that could belong to
them. -/
theorem unsignedNumber_toDigits (negative : Bool) (n : Nat) {rest : List Char} (hr : Stops rest) :
    unsignedNumber negative (Nat.toDigits 10 n ++ rest) =
      some (wholeOf negative (Nat.toDigits 10 n), rest) := by
  have hspan : spanDigits (Nat.toDigits 10 n ++ rest) = (Nat.toDigits 10 n, rest) :=
    spanDigits_append (fun c hc => Nat.isDigit_of_mem_toDigits (by omega) (by omega) hc) hr
  have htail : numberTail negative (Nat.toDigits 10 n) rest =
      some (wholeOf negative (Nat.toDigits 10 n), rest) := by
    unfold numberTail
    split
    · exact absurd rfl (hr '.' rfl).2.1
    · exact absurd rfl (hr 'e' rfl).2.2.1
    · exact absurd rfl (hr 'E' rfl).2.2.2
    · rfl
  unfold unsignedNumber
  rw [hspan]
  split
  · rename_i heq
    exact absurd (Prod.mk.inj heq).1 Nat.toDigits_ne_nil
  · rename_i heq
    -- a leading zero would be the only digit
    have hdigits := (Prod.mk.inj heq).1
    have hn := eq_zero_of_head? (n := n) (by rw [hdigits]; rfl)
    rw [hn, Nat.toDigits_zero] at hdigits
    exact absurd hdigits (by simp)
  · rename_i heq
    obtain ⟨rfl, rfl⟩ := Prod.mk.inj heq
    exact htail

end Doc

/-! ## Values that are read back -/

namespace Json

/-- A value whose numbers are integers that fit in 64 bits, with or without a sign. -/
inductive Plain : Json → Prop where
  | null : Plain .null
  | bool (b : Bool) : Plain (.bool b)
  | int {i : Int} (low : -0x8000000000000000 ≤ i) (high : i < 0x10000000000000000) :
      Plain (.num (.int i))
  | str (s : String) : Plain (.str s)
  | arr {items : List Json} (h : ∀ v ∈ items, Plain v) : Plain (.arr items)
  | obj {members : List (String × Json)} (h : ∀ e ∈ members, Plain e.2) : Plain (.obj members)

theorem numberChars_ofNat (n : Nat) : numberChars (.int (.ofNat n)) = Nat.toDigits 10 n := by
  show (Nat.repr n).toList = _
  rw [Nat.repr_eq_ofList_toDigits, String.toList_ofList]

theorem numberChars_negSucc (n : Nat) :
    numberChars (.int (.negSucc n)) = '-' :: Nat.toDigits 10 (n + 1) := by
  show ("-" ++ Nat.repr (n + 1)).toList = _
  rw [String.toList_append, Nat.repr_eq_ofList_toDigits, String.toList_ofList]
  simp

/-- A number begins with a digit or a minus sign. -/
theorem numberChars_cons (i : Int) :
    ∃ c cs, numberChars (.int i) = c :: cs ∧ (c.isDigit = true ∨ c = '-') := by
  cases i with
  | ofNat n =>
      rw [numberChars_ofNat]
      cases hd : Nat.toDigits 10 n with
      | nil => exact absurd hd Nat.toDigits_ne_nil
      | cons c cs =>
          have hmem : c ∈ Nat.toDigits 10 n := hd ▸ List.mem_cons_self
          exact ⟨c, cs, rfl, .inl (Nat.isDigit_of_mem_toDigits (by omega) (by omega) hmem)⟩
  | negSucc n => exact ⟨'-', _, numberChars_negSucc n, .inr rfl⟩

end Json

open Json (Plain)

namespace Doc

theorem number_numberChars {i : Int} (low : -0x8000000000000000 ≤ i)
    (high : i < 0x10000000000000000) {rest : List Char} (hr : Stops rest) :
    number (Json.numberChars (.int i) ++ rest) = some (some (.int i), rest) := by
  cases i with
  | ofNat n =>
      have hwhole : wholeOf false (Nat.toDigits 10 n) = some (.int (.ofNat n)) := by
        have hn : n < UInt64.size := by
          have h : (n : Int) < 0x10000000000000000 := high
          simp only [UInt64.size]
          omega
        simp [wholeOf, digitsValue_toDigits, hn]
      rw [Json.numberChars_ofNat, ← hwhole, ← unsignedNumber_toDigits false n hr]
      unfold number
      split
      · rename_i heq
        -- no digit is a minus sign
        cases hd : Nat.toDigits 10 n with
        | nil => exact absurd hd Nat.toDigits_ne_nil
        | cons c cs =>
            have hc : c ∈ Nat.toDigits 10 n := hd ▸ List.mem_cons_self
            rw [hd] at heq
            cases heq
            exact absurd (Nat.isDigit_of_mem_toDigits (by omega) (by omega) hc) (by decide)
      · rfl
  | negSucc n =>
      have hwhole : wholeOf true (Nat.toDigits 10 (n + 1)) = some (.int (.negSucc n)) := by
        have hn : ¬ 0x8000000000000000 < n + 1 := by omega
        simp only [wholeOf, digitsValue_toDigits]
        simp [hn]
        omega
      rw [Json.numberChars_negSucc, ← hwhole, ← unsignedNumber_toDigits true (n + 1) hr]
      rfl

/-! ## Values -/

mutual

/-- The document of a value. -/
def ofJson : Json → Doc
  | .null => .null
  | .bool b => .bool b
  | .num n => .num (some n)
  | .str s => .str (some s)
  | .arr items => .arr (ofItems items) true
  | .obj members => .obj (ofMembers members) true

/-- The documents of items. -/
def ofItems : List Json → List Doc
  | [] => []
  | v :: vs => ofJson v :: ofItems vs

/-- The documents of members. -/
def ofMembers : List (String × Json) → List (Doc × Doc)
  | [] => []
  | (k, v) :: rest => (.str (some k), ofJson v) :: ofMembers rest

end

theorem skipBlanks_cons {c : Char} (hc : isBlank c = false) (cs : List Char) :
    skipBlanks (c :: cs) = c :: cs := by
  simp [skipBlanks, hc]

theorem isBlank_number {c : Char} (hc : c.isDigit = true ∨ c = '-') : isBlank c = false := by
  cases hblank : isBlank c with
  | false => rfl
  | true =>
      simp only [isBlank, Bool.or_eq_true, decide_eq_true_eq] at hblank
      rcases hblank with ((rfl | rfl) | rfl) | rfl <;> exact absurd hc (by decide)

theorem quotedChars_append (s : String) (rest : List Char) :
    Json.quotedChars s ++ rest = '"' :: (s.toList.flatMap Json.escaped ++ '"' :: rest) := by
  simp [Json.quotedChars]

/-- A text, wherever it stands. -/
theorem value_quoted (fuel : Nat) (s : String) (rest : List Char) :
    value (fuel + 1) (Json.quotedChars s ++ rest) = (.str (some s), some rest) := by
  have htail := stringTail_escapedAll s.toList rest
  rw [quotedChars_append]
  unfold value
  rw [skipBlanks_cons (by decide)]
  simp [htail]

/-- A number is what is read where nothing else begins. -/
theorem value_number {c : Char} {cs rest : List Char} {n : Option Number} (fuel : Nat)
    (hc : c.isDigit = true ∨ c = '-') (h : number (c :: cs) = some (n, rest)) :
    value (fuel + 1) (c :: cs) = (.num n, some rest) := by
  unfold value
  rw [skipBlanks_cons (isBlank_number hc)]
  split
  case h_7 => rw [h]
  all_goals
    rename_i heq
    cases heq
    exact absurd hc (by decide)

/-- What a reader has to make of a value that stands in front of something. -/
def Reads (v : Json) : Prop :=
  ∀ (fuel : Nat) (rest : List Char), 2 * v.chars.length ≤ fuel → Stops rest →
    value fuel (v.chars ++ rest) = (ofJson v, some rest)

theorem moreItemChars_cons (v : Json) (vs : List Json) :
    Json.moreItemChars (v :: vs) = ',' :: Json.itemChars (v :: vs) := by
  rw [Json.moreItemChars, Json.itemChars]

theorem moreMemberChars_cons (e : String × Json) (ms : List (String × Json)) :
    Json.moreMemberChars (e :: ms) = ',' :: Json.memberChars (e :: ms) := by
  rw [Json.moreMemberChars, Json.memberChars]

theorem stops_moreItemChars (vs : List Json) (rest : List Char) :
    Stops (Json.moreItemChars vs ++ rest) := by
  cases vs with
  | nil => exact stops_cons (by decide)
  | cons v vs =>
      rw [moreItemChars_cons]
      exact stops_cons (by decide)

theorem stops_moreMemberChars (ms : List (String × Json)) (rest : List Char) :
    Stops (Json.moreMemberChars ms ++ rest) := by
  cases ms with
  | nil => exact stops_cons (by decide)
  | cons e ms =>
      rw [moreMemberChars_cons]
      exact stops_cons (by decide)

/-- Items are read one by one. -/
theorem items_itemChars {v : Json} {vs : List Json} (h : ∀ u ∈ v :: vs, Reads u) {fuel : Nat}
    (rest : List Char) (hfuel : 2 * (Json.itemChars (v :: vs)).length ≤ fuel) :
    items fuel (Json.itemChars (v :: vs) ++ rest) = (ofItems (v :: vs), some rest) := by
  induction vs generalizing v fuel with
  | nil =>
      -- the closing bracket stops the last item
      simp only [Json.itemChars, Json.moreItemChars, List.length_append, List.length_cons] at hfuel
      obtain ⟨fuel, rfl⟩ : ∃ f, fuel = f + 1 := ⟨fuel - 1, by omega⟩
      have hv := h v List.mem_cons_self fuel _ (by omega) (stops_moreItemChars [] rest)
      rw [Json.itemChars, List.append_assoc, items, hv]
      rfl
  | cons u us ih =>
      -- a comma stops any other one
      rw [Json.itemChars, moreItemChars_cons] at hfuel
      simp only [List.length_append, List.length_cons] at hfuel
      obtain ⟨fuel, rfl⟩ : ∃ f, fuel = f + 1 := ⟨fuel - 1, by omega⟩
      have hv := h v List.mem_cons_self fuel _ (by omega) (stops_moreItemChars (u :: us) rest)
      have hlen : 2 * (Json.itemChars (u :: us)).length ≤ fuel := by omega
      have hrest := ih (fun x hx => h x (List.mem_cons_of_mem _ hx)) hlen
      rw [Json.itemChars, List.append_assoc, items, hv, moreItemChars_cons, List.cons_append]
      simp only
      rw [skipBlanks_cons (by decide)]
      simp only [hrest]
      rfl

/-- The name of a member and the value behind it. -/
theorem member_chars (k : String) {v : Json} (hv : Reads v) {fuel : Nat} {rest : List Char}
    (hfuel : 2 * v.chars.length < fuel) (hr : Stops rest) :
    value fuel (Json.quotedChars k ++ ':' :: (v.chars ++ rest)) =
        (.str (some k), some (':' :: (v.chars ++ rest))) ∧
      value fuel (v.chars ++ rest) = (ofJson v, some rest) := by
  obtain ⟨fuel, rfl⟩ : ∃ f, fuel = f + 1 := ⟨fuel - 1, by omega⟩
  exact ⟨value_quoted fuel k _, hv _ _ (by omega) hr⟩

/-- Members are read one by one. -/
theorem members_memberChars {e : String × Json} {ms : List (String × Json)}
    (h : ∀ x ∈ e :: ms, Reads x.2) {fuel : Nat} (rest : List Char)
    (hfuel : 2 * (Json.memberChars (e :: ms)).length ≤ fuel) :
    members fuel (Json.memberChars (e :: ms) ++ rest) = (ofMembers (e :: ms), some rest) := by
  induction ms generalizing e fuel with
  | nil =>
      simp only [Json.memberChars, List.length_append, List.length_cons] at hfuel
      obtain ⟨fuel, rfl⟩ : ∃ f, fuel = f + 1 := ⟨fuel - 1, by omega⟩
      have hlen : 2 * e.2.chars.length < fuel := by omega
      obtain ⟨hk, hv⟩ :=
        member_chars e.1 (h e List.mem_cons_self) hlen (stops_moreMemberChars [] rest)
      rw [Json.memberChars, List.append_assoc, List.cons_append, List.append_assoc, members, hk]
      simp only
      rw [skipBlanks_cons (by decide)]
      simp only [hv]
      rfl
  | cons m ms ih =>
      rw [Json.memberChars, moreMemberChars_cons] at hfuel
      simp only [List.length_append, List.length_cons] at hfuel
      obtain ⟨fuel, rfl⟩ : ∃ f, fuel = f + 1 := ⟨fuel - 1, by omega⟩
      have hlen : 2 * e.2.chars.length < fuel := by omega
      obtain ⟨hk, hv⟩ :=
        member_chars e.1 (h e List.mem_cons_self) hlen (stops_moreMemberChars (m :: ms) rest)
      have hlater : 2 * (Json.memberChars (m :: ms)).length ≤ fuel := by omega
      have hrest := ih (fun x hx => h x (List.mem_cons_of_mem _ hx)) hlater
      rw [Json.memberChars, List.append_assoc, List.cons_append, List.append_assoc, members, hk]
      simp only
      rw [skipBlanks_cons (by decide)]
      simp only
      rw [hv, moreMemberChars_cons, List.cons_append]
      simp only
      rw [skipBlanks_cons (by decide)]
      simp only [hrest]
      rfl

/-- What a plain value begins with is neither a blank nor a closing bracket. -/
theorem chars_cons {v : Json} (hv : v.Plain) :
    ∃ c cs, v.chars = c :: cs ∧ isBlank c = false ∧ c ≠ ']' := by
  cases hv with
  | null => exact ⟨'n', _, rfl, by decide, by decide⟩
  | bool b => cases b <;> exact ⟨_, _, rfl, by decide, by decide⟩
  | @int i =>
      obtain ⟨c, cs, hchars, hc⟩ := Json.numberChars_cons i
      refine ⟨c, cs, hchars, isBlank_number hc, ?_⟩
      rintro rfl
      exact absurd hc (by decide)
  | str s => exact ⟨'"', _, rfl, by decide, by decide⟩
  | arr => exact ⟨'[', _, rfl, by decide, by decide⟩
  | obj => exact ⟨'\x7b', _, rfl, by decide, by decide⟩

/-- An array that is not closed at once has items. -/
theorem value_arr {c : Char} {cs rest : List Char} {ds : List Doc} {fuel : Nat}
    (hblank : isBlank c = false) (hc : c ≠ ']')
    (h : items fuel (c :: cs) = (ds, some rest)) :
    value (fuel + 1) ('[' :: c :: cs) = (.arr ds true, some rest) := by
  unfold value
  rw [skipBlanks_cons (by decide)]
  simp only
  rw [skipBlanks_cons hblank]
  split
  · rename_i heq
    cases heq
    exact absurd rfl hc
  · simp only [h]
    rfl

/-- An object that is not closed at once has members. -/
theorem value_obj {k : String} {cs rest : List Char} {ds : List (Doc × Doc)} {fuel : Nat}
    (h : members fuel (Json.quotedChars k ++ cs) = (ds, some rest)) :
    value (fuel + 1) ('\x7b' :: (Json.quotedChars k ++ cs)) = (.obj ds true, some rest) := by
  rw [quotedChars_append] at h ⊢
  generalize k.toList.flatMap Json.escaped ++ '"' :: cs = tail at h ⊢
  have hread : value (fuel + 1) ('\x7b' :: '"' :: tail) =
      (.obj (members fuel ('"' :: tail)).1 (members fuel ('"' :: tail)).2.isSome,
        (members fuel ('"' :: tail)).2) := rfl
  rw [hread, h]
  rfl

/-- Reading a plain value takes some fuel. -/
theorem reads_of_succ {v : Json} (hv : v.Plain)
    (h : ∀ {fuel : Nat} {rest : List Char}, 2 * v.chars.length ≤ fuel + 1 → Stops rest →
      value (fuel + 1) (v.chars ++ rest) = (ofJson v, some rest)) : Reads v := by
  intro fuel rest hfuel hr
  obtain ⟨c, cs, hchars, _⟩ := chars_cons hv
  have hpos : 1 ≤ v.chars.length := by simp [hchars]
  obtain ⟨fuel, rfl⟩ : ∃ f, fuel = f + 1 := ⟨fuel - 1, by omega⟩
  exact h hfuel hr

theorem value_plain {v : Json} (hv : v.Plain) {fuel : Nat} {rest : List Char}
    (hfuel : 2 * v.chars.length ≤ fuel + 1) (hr : Stops rest) :
    value (fuel + 1) (v.chars ++ rest) = (ofJson v, some rest) := by
  induction hv generalizing fuel rest with
  | null => rfl
  | bool b => cases b <;> rfl
  | @int i low high =>
      obtain ⟨c, cs, hchars, hc⟩ := Json.numberChars_cons i
      have hread := number_numberChars low high hr
      show value (fuel + 1) (Json.numberChars (.int i) ++ rest) = _
      rw [hchars] at hread ⊢
      exact value_number fuel hc hread
  | str s => exact value_quoted fuel s rest
  | @arr vs hvs ih =>
      cases vs with
      | nil => rfl
      | cons v vs =>
          obtain ⟨c, cs, hchars, hblank, hc⟩ := chars_cons (hvs v List.mem_cons_self)
          have hlen : 2 * (Json.itemChars (v :: vs)).length ≤ fuel := by
            simp only [Json.chars, List.length_cons] at hfuel
            omega
          have hreads : ∀ u ∈ v :: vs, Reads u := fun u hu => reads_of_succ (hvs u hu) (ih u hu)
          have hitems := items_itemChars hreads rest hlen
          show value (fuel + 1) ('[' :: (Json.itemChars (v :: vs) ++ rest)) = _
          rw [Json.itemChars, hchars, List.append_assoc, List.cons_append] at hitems ⊢
          exact value_arr hblank hc hitems
  | @obj ms hms ih =>
      cases ms with
      | nil => rfl
      | cons m ms =>
          have hlen : 2 * (Json.memberChars (m :: ms)).length ≤ fuel := by
            simp only [Json.chars, List.length_cons] at hfuel
            omega
          have hreads : ∀ e ∈ m :: ms, Reads e.2 := fun e he => reads_of_succ (hms e he) (ih e he)
          have hmembers := members_memberChars hreads rest hlen
          show value (fuel + 1) ('\x7b' :: (Json.memberChars (m :: ms) ++ rest)) = _
          rw [Json.memberChars, List.append_assoc] at hmembers ⊢
          exact value_obj hmembers

/-- **A plain value is read back as its document**, whatever follows it. -/
theorem reads_of_plain {v : Json} (hv : v.Plain) : Reads v :=
  reads_of_succ hv (value_plain hv)

/-- What is written is read as a whole. -/
theorem parse_render {v : Json} (hv : v.Plain) : parse v.render = ⟨ofJson v, true⟩ := by
  have hread := reads_of_plain hv (2 * v.chars.length + 2) [] (by omega)
    (fun c hc => absurd hc (by simp))
  rw [List.append_nil] at hread
  unfold parse Json.render
  simp only [String.toList_ofList, hread]
  rfl

end Doc

/-! ## Values of documents -/

namespace Json

theorem canonicalItems_eq (vs : List Json) : canonicalItems vs = vs.map canonical := by
  induction vs with
  | nil => rfl
  | cons v vs ih => rw [canonicalItems, ih, List.map_cons]

theorem canonicalMembers_eq (ms : List (String × Json)) :
    canonicalMembers ms = ms.map fun e => (e.1, e.2.canonical) := by
  induction ms with
  | nil => rfl
  | cons e ms ih => rw [canonicalMembers, ih, List.map_cons]

/-- Members that are sorted and canonical stay as they are. -/
theorem canonical_object {ms : List (String × Json)} (h : ∀ e ∈ ms, e.2.canonical = e.2) :
    (object ms).canonical = object ms := by
  have hsame : canonicalMembers (OrdMap.ofList ms).toList = (OrdMap.ofList ms).toList := by
    rw [canonicalMembers_eq]
    conv => rhs; rw [← List.map_id (OrdMap.ofList ms).toList]
    refine List.map_congr_left fun e he => ?_
    rw [h e (OrdMap.mem_of_mem_ofList he)]
    rfl
  unfold object
  rw [canonical, hsame, object, OrdMap.toList_ofList (OrdMap.ofList ms).increasing]

mutual

/-- Sorting twice is sorting once. -/
theorem canonical_canonical : ∀ v : Json, v.canonical.canonical = v.canonical
  | .null | .bool _ | .num _ | .str _ => by simp only [canonical]
  | .arr vs => by
      simp only [canonical, canonicalItems_eq, List.map_map, arr.injEq]
      exact List.map_congr_left fun v hv => canonical_items vs v hv
  | .obj ms => by
      rw [canonical, canonicalMembers_eq]
      refine canonical_object fun e he => ?_
      obtain ⟨e', he', rfl⟩ := List.mem_map.mp he
      exact canonical_members ms e' he'

theorem canonical_items : ∀ (vs : List Json), ∀ v ∈ vs, v.canonical.canonical = v.canonical
  | [], v, hv => absurd hv (by simp)
  | u :: us, v, hv => by
      rcases List.mem_cons.mp hv with hu | hv
      · rw [hu]
        exact canonical_canonical u
      · exact canonical_items us v hv

theorem canonical_members :
    ∀ (ms : List (String × Json)), ∀ e ∈ ms, e.2.canonical.canonical = e.2.canonical
  | [], e, he => absurd he (by simp)
  | (k, v) :: ms, e, he => by
      rcases List.mem_cons.mp he with hk | he
      · rw [hk]
        exact canonical_canonical v
      · exact canonical_members ms e he

end

/-- Sorting changes no number. -/
theorem Plain.canonical {v : Json} (hv : v.Plain) : v.canonical.Plain := by
  induction hv with
  | null => exact .null
  | bool b => exact .bool b
  | int low high => exact .int low high
  | str s => exact .str s
  | arr _ ih =>
      rw [Json.canonical, canonicalItems_eq]
      refine .arr fun u hu => ?_
      obtain ⟨v, hv, rfl⟩ := List.mem_map.mp hu
      exact ih v hv
  | obj _ ih =>
      rw [Json.canonical, canonicalMembers_eq]
      refine .obj fun e he => ?_
      obtain ⟨e', he', rfl⟩ := List.mem_map.mp (OrdMap.mem_of_mem_ofList he)
      exact ih e' he'

mutual

/-- How many arrays and objects are nested. -/
def depth : Json → Nat
  | .null | .bool _ | .num _ | .str _ => 0
  | .arr items => depthOfItems items + 1
  | .obj members => depthOfMembers members + 1

/-- How many are nested in one of the items. -/
def depthOfItems : List Json → Nat
  | [] => 0
  | v :: vs => max v.depth (depthOfItems vs)

/-- How many are nested in one of the members. -/
def depthOfMembers : List (String × Json) → Nat
  | [] => 0
  | (_, v) :: rest => max v.depth (depthOfMembers rest)

end

end Json

namespace Doc

mutual

/-- **The value of what was written is the canonical value**, if the reader goes deep enough. -/
theorem toJson_ofJson : ∀ (v : Json) (depth : Nat), v.depth ≤ depth →
    toJson depth (ofJson v) = .ok v.canonical
  | .null, _, _ | .bool _, _, _ | .num _, _, _ | .str _, _, _ => by
      simp only [ofJson, toJson, Json.canonical]
  | .arr vs, 0, h => absurd h (by simp [Json.depth])
  | .obj ms, 0, h => absurd h (by simp [Json.depth])
  | .arr vs, depth + 1, h => by
      have hvs := toItems_ofItems vs depth (by simp only [Json.depth] at h; omega)
      simp only [ofJson, toJson, hvs, Json.canonical]
      rfl
  | .obj ms, depth + 1, h => by
      have hms := toMembers_ofMembers ms depth (by simp only [Json.depth] at h; omega)
      simp only [ofJson, toJson, hms, Json.canonical]
      rfl

theorem toItems_ofItems : ∀ (vs : List Json) (depth : Nat), Json.depthOfItems vs ≤ depth →
    toItems depth (ofItems vs) = .ok (Json.canonicalItems vs)
  | [], _, _ => by simp only [ofItems, toItems, Json.canonicalItems]
  | v :: vs, depth, h => by
      simp only [Json.depthOfItems] at h
      have hv := toJson_ofJson v depth (by omega)
      have hvs := toItems_ofItems vs depth (by omega)
      simp only [ofItems, toItems, hv, hvs, Json.canonicalItems]
      rfl

theorem toMembers_ofMembers : ∀ (ms : List (String × Json)) (depth : Nat),
    Json.depthOfMembers ms ≤ depth →
    toMembers depth (ofMembers ms) = .ok (Json.canonicalMembers ms)
  | [], _, _ => by simp only [ofMembers, toMembers, Json.canonicalMembers]
  | (k, v) :: ms, depth, h => by
      simp only [Json.depthOfMembers] at h
      have hv := toJson_ofJson v depth (by omega)
      have hms := toMembers_ofMembers ms depth (by omega)
      simp only [ofMembers, toMembers, hv, hms, Json.canonicalMembers]
      rfl

end

mutual

/-- What is nested too deeply for the reader is no JSON to it. -/
theorem toJson_ofJson_deep : ∀ (v : Json) (depth : Nat), depth < v.depth →
    toJson depth (ofJson v) = .error .malformed
  | .null, _, h | .bool _, _, h | .num _, _, h | .str _, _, h => absurd h (by simp [Json.depth])
  | .arr vs, 0, _ => by simp only [ofJson, toJson]
  | .obj ms, 0, _ => by simp only [ofJson, toJson]
  | .arr vs, depth + 1, h => by
      have hvs := toItems_ofItems_deep vs depth (by simp only [Json.depth] at h; omega)
      simp only [ofJson, toJson, hvs]
      rfl
  | .obj ms, depth + 1, h => by
      have hms := toMembers_ofMembers_deep ms depth (by simp only [Json.depth] at h; omega)
      simp only [ofJson, toJson, hms]
      rfl

theorem toItems_ofItems_deep : ∀ (vs : List Json) (depth : Nat), depth < Json.depthOfItems vs →
    toItems depth (ofItems vs) = .error .malformed
  | [], _, h => absurd h (by simp [Json.depthOfItems])
  | v :: vs, depth, h => by
      simp only [Json.depthOfItems] at h
      simp only [ofItems, toItems]
      by_cases hv : depth < v.depth
      · rw [toJson_ofJson_deep v depth hv]
        rfl
      · -- the item is read, so it must be a later one
        rw [toJson_ofJson v depth (by omega), toItems_ofItems_deep vs depth (by omega)]
        rfl

theorem toMembers_ofMembers_deep : ∀ (ms : List (String × Json)) (depth : Nat),
    depth < Json.depthOfMembers ms → toMembers depth (ofMembers ms) = .error .malformed
  | [], _, h => absurd h (by simp [Json.depthOfMembers])
  | (k, v) :: ms, depth, h => by
      simp only [Json.depthOfMembers] at h
      simp only [ofMembers, toMembers]
      by_cases hv : depth < v.depth
      · rw [toJson_ofJson_deep v depth hv]
        rfl
      · rw [toJson_ofJson v depth (by omega), toMembers_ofMembers_deep ms depth (by omega)]
        rfl

end

end Doc

end EvmBridge
