import EvmBridge.Codec.Record
import EvmBridge.Proofs.HexReading

/-!
# Codecs that read what they write

A codec writes values in one way and reads them in many. `Codec.RoundTrips c n` says that it reads
back what it writes, in a document that nests `n` levels deeper. One lemma for each way to build a
codec reduces this to the parts, so a record is checked by going through its fields once:

* a field that may be left out in writing must then have the value as its default;
* no two fields have the same name (`Codec.RoundTrips.record`);
* a value that may be null must not be written as null otherwise (`Codec.RoundTrips.optional`).

A lemma leaves open how much deeper than needed a reader goes, so that a part fits into any whole.
-/

namespace EvmBridge

namespace Codec

variable {α β : Type} {n : Nat}

/-- All values are written as plain ones, and are read back by a reader that goes this deep. -/
structure RoundTrips (c : Codec α) (levels : Nat) : Prop where
  plain : ∀ a, (c.toJson a).Plain
  read : ∀ (a : α) {depth : Nat}, levels ≤ depth →
    c.read depth (Doc.ofJson (c.toJson a)) = .ok a

/-- **A text that was written is read back.** -/
theorem RoundTrips.decode_encode {c : Codec α} (hc : c.RoundTrips Doc.maxDepth) (a : α) :
    c.decode (c.encode a) = .ok a := by
  unfold decode encode
  rw [Doc.parse_render (hc.plain a)]
  dsimp only
  rw [hc.read a (Nat.le_refl _)]
  rfl

/-! ## Simple values -/

theorem roundTrips_ignored : ignored.RoundTrips n := ⟨fun _ => .null, fun _ _ _ => rfl⟩

theorem roundTrips_bool : bool.RoundTrips n := ⟨.bool, fun _ _ _ => rfl⟩

theorem roundTrips_text : text.RoundTrips n := ⟨.str, fun _ _ _ => rfl⟩

/-- An integer is read back if its type lies between the bounds, and the bounds in 64 bits. -/
theorem roundTrips_integer {name : String} {low high : Int} {ofInt : Int → α} {toInt : α → Int}
    (hlow : -0x8000000000000000 ≤ low) (hhigh : high < 0x10000000000000000)
    (hrange : ∀ a, low ≤ toInt a ∧ toInt a ≤ high) (hback : ∀ a, ofInt (toInt a) = a) :
    (integer name low high ofInt toInt).RoundTrips n where
  plain a := .int (Int.le_trans hlow (hrange a).1) (Int.lt_of_le_of_lt (hrange a).2 hhigh)
  read a _ _ := by
    show integer.inRange name low high ofInt (toInt a) = _
    rw [integer.inRange, if_pos (hrange a), hback]

theorem roundTrips_int32 : int32.RoundTrips n :=
  roundTrips_integer (by decide) (by decide)
    (fun a => ⟨a.le_toInt, by have := a.toInt_lt; omega⟩) Int32.ofInt_toInt

theorem roundTrips_word32 : word32.RoundTrips n :=
  roundTrips_integer (by decide) (by decide) (fun a => by have := a.toNat_lt; omega)
    fun a => by simp

theorem roundTrips_word64 : word64.RoundTrips n :=
  roundTrips_integer (by decide) (by decide) (fun a => by have := a.toNat_lt; omega)
    fun a => by simp

namespace RoundTrips

theorem refine {c : Codec β} (hc : c.RoundTrips n) {get : β → Except HexFault α} {put : α → β}
    (hback : ∀ a, get (put a) = .ok a) : (c.refine get put).RoundTrips n where
  plain a := hc.plain (put a)
  read a _ hd := by
    show (do
      let b ← c.read _ (Doc.ofJson (c.toJson (put a)))
      (get b).mapError Json.Fault.content) = _
    rw [hc.read (put a) hd]
    show (get (put a)).mapError Json.Fault.content = _
    rw [hback]
    rfl

/-- Null stands for nothing, so no value may be written as null. -/
theorem optional {c : Codec α} (hc : c.RoundTrips n)
    (hnull : ∀ a, c.toJson a ≠ .null) : c.optional.RoundTrips n where
  plain
    | none => .null
    | some a => hc.plain a
  read a? _ hd := by
    cases a? with
    | none => rfl
    | some a =>
        have hread := congrArg (some <$> ·) (hc.read a hd)
        show c.optional.read _ (Doc.ofJson (c.toJson a)) = _
        cases hv : c.toJson a with
        | null => exact absurd hv (hnull a)
        | _ =>
            rw [hv] at hread
            exact hread

end RoundTrips

theorem roundTrips_fixed (m : Nat) : (fixed m).RoundTrips n :=
  roundTrips_text.refine FixedBytes.parse_toHex

theorem roundTrips_quantity : quantity.RoundTrips n :=
  roundTrips_text.refine Quantity.decode_encode

theorem roundTrips_quantityWord : quantityWord.RoundTrips n :=
  roundTrips_text.refine Quantity.decodeWord_encode

theorem roundTrips_bytes : bytes.RoundTrips n :=
  (roundTrips_text.optional nofun).refine Hex.decode_encode

/-! ## Arrays and maps -/

namespace RoundTrips

theorem list {c : Codec α} (hc : c.RoundTrips n) : c.list.RoundTrips (n + 1) where
  plain as := .arr fun v hv => by
    obtain ⟨a, _, rfl⟩ := List.mem_map.mp hv
    exact hc.plain a
  read as depth hd := by
    obtain ⟨depth, rfl⟩ : ∃ d, depth = d + 1 := ⟨depth - 1, by omega⟩
    have hitems : (Doc.ofItems (as.map c.toJson)).mapM (c.read depth) = .ok as := by
      induction as with
      | nil => rfl
      | cons a as ih =>
          rw [List.map_cons, Doc.ofItems, List.mapM_cons, hc.read a (by omega), ih]
          rfl
    show (do let as ← (Doc.ofItems (as.map c.toJson)).mapM (c.read depth); _) = _
    rw [hitems]
    rfl

variable [Ord α] [Std.TransOrd α] [Std.LawfulEqOrd α]

/-- A map is filled in key order again. -/
theorem map {key : String → Except HexFault α} {ofKey : α → String} {c : Codec β}
    (hkey : ∀ k, key (ofKey k) = .ok k) (hc : c.RoundTrips n) :
    (Codec.map key ofKey c).RoundTrips (n + 1) where
  plain m := .obj fun e he => by
    obtain ⟨e', _, rfl⟩ := List.mem_map.mp he
    exact hc.plain e'.2
  read m depth hd := by
    obtain ⟨depth, rfl⟩ : ∃ d, depth = d + 1 := ⟨depth - 1, by omega⟩
    have hentries : ∀ (l : List (α × β)) (m : OrdMap α β),
        readEntries key c depth m (Doc.ofMembers (l.map fun e => (ofKey e.1, c.toJson e.2))) =
          .ok (l.foldl (fun m e => m.insert e.1 e.2) m) := by
      intro l
      induction l with
      | nil => exact fun _ => rfl
      | cons e l ih =>
          intro m
          rw [List.map_cons, Doc.ofMembers, readEntries, hkey, hc.read e.2 (by omega)]
          exact ih _
    have hsame : OrdMap.ofList m.toList = m := OrdMap.ext_toList (OrdMap.toList_ofList m.increasing)
    show (do let m ← readEntries key c depth ∅ _; _) = _
    rw [hentries]
    show (Except.ok (OrdMap.ofList m.toList) : Except Json.Fault _) = _
    rw [hsame]

end RoundTrips

end Codec

/-! ## Records -/

namespace Fields

variable {ρ : Type} {n : Nat}

/-- All fields round trip, and a value that is left out in writing is the default. -/
inductive RoundTrips (n : Nat) : {ρ : Type} → Fields ρ → Prop where
  | done : RoundTrips n .done
  | field {α ρ : Type} {name : String} {c : Codec α} {default? : Option α} {hidden : α → Bool}
      {rest : Fields ρ} (hc : c.RoundTrips n)
      (hhidden : ∀ a, hidden a = true → default? = some a) (hrest : rest.RoundTrips n) :
      RoundTrips n (.field name c default? hidden rest)

namespace RoundTrips

variable {α : Type} {name : String} {c : Codec α} {rest : Fields ρ}

theorem required (hc : c.RoundTrips n) (hrest : rest.RoundTrips n) :
    (Fields.required name c rest).RoundTrips n :=
  .field hc (fun _ h => absurd h Bool.false_ne_true) hrest

theorem defaulted {a : α} (hc : c.RoundTrips n) (hrest : rest.RoundTrips n) :
    (Fields.defaulted name c a rest).RoundTrips n :=
  .field hc (fun _ h => absurd h Bool.false_ne_true) hrest

theorem omitted {a : α} {hidden : α → Bool} (hc : c.RoundTrips n)
    (hhidden : ∀ b, hidden b = true → b = a) (hrest : rest.RoundTrips n) :
    (Fields.omitted name c a hidden rest).RoundTrips n :=
  .field hc (fun b h => congrArg some (hhidden b h).symm) hrest

end RoundTrips

/-- The fields that were written, as a reader has found them. -/
def written {ρ : Type} : (fs : Fields ρ) → ρ → fs.Slots
  | .done, _ => ()
  | .field _ _ _ hidden rest, (a, r) => (if hidden a then none else some a, rest.written r)

theorem plain_members {fs : Fields ρ} (h : fs.RoundTrips n) (r : ρ) :
    ∀ e ∈ fs.members r, e.2.Plain := by
  induction h with
  | done => exact fun e he => absurd he (by simp [members])
  | field hc _ _ ih =>
      intro e he
      obtain ⟨a, r⟩ := r
      unfold members at he
      split at he
      · exact ih r e he
      · rcases List.mem_cons.mp he with rfl | he
        · exact hc.plain a
        · exact ih r e he

/-- A field that was left out takes its default. -/
theorem build_written {fs : Fields ρ} (h : fs.RoundTrips n) (r : ρ) :
    fs.build (fs.written r) = .ok r := by
  induction h with
  | done => rfl
  | @field _ _ name c default? hidden rest _ hhidden _ ih =>
      obtain ⟨a, r⟩ := r
      by_cases ha : hidden a = true
      · obtain rfl := hhidden a ha
        simp only [written, build, if_pos ha, ih r]
        rfl
      · simp only [written, build, if_neg ha, ih r]
        rfl

theorem mem_names {fs : Fields ρ} {r : ρ} {e : String × Json} (h : e ∈ fs.members r) :
    e.1 ∈ fs.names := by
  induction fs with
  | done => exact absurd h (by simp [members])
  | field name c default? hidden rest ih =>
      obtain ⟨a, r⟩ := r
      unfold members at h
      split at h
      · exact List.mem_cons_of_mem _ (ih h)
      · rcases List.mem_cons.mp h with rfl | h
        · exact List.mem_cons_self
        · exact List.mem_cons_of_mem _ (ih h)

end Fields

namespace Fields

variable {α ρ δ : Type} {name : String} {c : Codec α} {default? : Option α} {hidden : α → Bool}
  {rest : Fields ρ} {others : rest.Slots} {get : Reading δ} {d : δ}

/-- A field takes the member of its name. -/
theorem readMember_self {a : α} (h : get c d = .ok a) :
    (Fields.field name c default? hidden rest).readMember get name d (none, others) =
      .ok (some (some a, others)) := by
  refine (if_pos rfl).trans ?_
  exact congrArg (fun found => found >>= fun a => .ok (some (some a, others))) h

/-- A field leaves the member of another name to the others. -/
theorem readMember_of_ne {name' : String} (h : name' ≠ name) (slot : Option α) :
    (Fields.field name c default? hidden rest).readMember get name' d (slot, others) =
      Option.map (fun others => (slot, others)) <$> rest.readMember get name' d others := by
  refine (if_neg h).trans ?_
  cases rest.readMember get name' d others <;> rfl

end Fields

namespace Codec

variable {α ρ : Type} {n depth : Nat} {unknown : Unknown}

theorem readMembers_cons {fs : Fields ρ} (slots : fs.Slots) (name : String) (v : Json)
    (ms : List (String × Json)) :
    readMembers fs unknown depth slots (Doc.ofMembers ((name, v) :: ms)) = (do
      match ← fs.readMember (fun c d => c.read depth d) name (Doc.ofJson v) slots with
      | some slots => readMembers fs unknown depth slots (Doc.ofMembers ms)
      | none =>
        match unknown with
        | .refused => .error (.unknownField name fs.names)
        | .skipped =>
          if (Doc.ofJson v).isSound then readMembers fs unknown depth slots (Doc.ofMembers ms)
          else .error .malformed) := rfl

/-- Members with other names pass a field by. -/
theorem readMembers_field {name : String} {c : Codec α} {default? : Option α} {hidden : α → Bool}
    {fs : Fields ρ} {slot : Option α} {others others' : fs.Slots} {ms : List (String × Json)}
    (hne : ∀ e ∈ ms, e.1 ≠ name)
    (h : readMembers fs unknown depth others (Doc.ofMembers ms) = .ok others') :
    readMembers (.field name c default? hidden fs) unknown depth (slot, others)
      (Doc.ofMembers ms) = .ok (slot, others') := by
  induction ms generalizing others with
  | nil =>
      cases h
      rfl
  | cons e ms ih =>
      obtain ⟨name', v⟩ := e
      have he : name' ≠ name := hne (name', v) List.mem_cons_self
      have hrest := fun e he => hne e (List.mem_cons_of_mem _ he)
      rw [readMembers_cons] at h
      refine (readMembers_cons _ name' v ms).trans ?_
      rw [Fields.readMember_of_ne he]
      generalize fs.readMember _ _ _ _ = found at h ⊢
      rcases found with fault | _ | found
      · cases h
      · -- the member belongs to no field at all
        cases unknown with
        | refused => cases h
        | skipped =>
            by_cases hsound : (Doc.ofJson v).isSound = true
            · exact (if_pos hsound).trans (ih hrest ((if_pos hsound).symm.trans h))
            · exact absurd ((if_neg hsound).symm.trans h) (by simp)
      · exact ih hrest h

/-- **A reader finds all fields that were written.** -/
theorem readMembers_members {fs : Fields ρ} (h : fs.RoundTrips n) (hnames : fs.names.Nodup)
    (hn : n ≤ depth) (r : ρ) :
    readMembers fs unknown depth fs.noSlots (Doc.ofMembers (fs.members r)) =
      .ok (fs.written r) := by
  induction h with
  | done => rfl
  | @field _ _ name c default? hidden rest hc _ _ ih =>
      obtain ⟨a, r⟩ := r
      obtain ⟨hname, hnames⟩ := List.nodup_cons.mp hnames
      have hne : ∀ e ∈ rest.members r, e.1 ≠ name := fun e he h =>
        hname (h ▸ Fields.mem_names he)
      have hrest := ih hnames r
      by_cases ha : hidden a = true
      · simp only [Fields.members, Fields.written, if_pos ha]
        exact readMembers_field hne hrest
      · simp only [Fields.members, Fields.written, if_neg ha]
        have hread : c.read depth (Doc.ofJson (c.toJson a)) = .ok a := hc.read a hn
        refine (readMembers_cons _ name (c.toJson a) _).trans ?_
        rw [Fields.noSlots, Fields.readMember_self hread]
        exact readMembers_field hne hrest

/-- **A record round trips if its fields do.** -/
theorem RoundTrips.record {name : String} {fs : Fields ρ} {make : ρ → α} {parts : α → ρ}
    (hfs : fs.RoundTrips n) (hnames : fs.names.Nodup) (hmake : ∀ a, make (parts a) = a) :
    (Codec.record name unknown fs make parts).RoundTrips (n + 1) where
  plain a := .obj (fs.plain_members hfs (parts a))
  read a depth hd := by
    obtain ⟨depth, rfl⟩ : ∃ d, depth = d + 1 := ⟨depth - 1, by omega⟩
    have hread : readMembers fs unknown depth fs.noSlots (Doc.ofMembers (fs.members (parts a))) =
        .ok (fs.written (parts a)) := readMembers_members hfs hnames (by omega) _
    show (do
      let slots ← readMembers fs unknown depth fs.noSlots (Doc.ofMembers (fs.members (parts a)))
      if true then make <$> fs.build slots else .error .malformed) = _
    rw [hread]
    show make <$> fs.build (fs.written (parts a)) = _
    rw [Fields.build_written hfs]
    exact congrArg Except.ok (hmake a)

end Codec

end EvmBridge
