import EvmBridge.Proofs.RecordReading
import EvmBridge.Proofs.Transparency

/-!
# The error of an envelope decides

An envelope has an error and a payload. Whether it tells of a success is told by the error alone,
and the payload is looked at in a success only (`Envelope.error_decides`). It does not matter in
which order the two stand, nor whether the payload is there at all.

An envelope is read as any other record, so all that is needed is what its members admit
(`Envelope.read_members_perm`). What is made of it then depends on the error
(`Envelope.decode_eq`).
-/

namespace EvmBridge

theorem Doc.ofMembers_perm {ms ms' : List (String × Json)} (h : ms.Perm ms') :
    (ofMembers ms).Perm (ofMembers ms') := by
  induction h with
  | nil => exact .nil
  | cons _ _ ih => exact ih.cons _
  | swap => exact .swap _ _ _
  | trans _ _ ih ih' => exact ih.trans ih'

namespace Envelope

variable {α : Type} {c : Codec α} {s : String}

/-- The members of an envelope, in the order in which they are written. -/
def members (error : String) (result? : Option Json) : List (String × Json) :=
  ("error", .str error) :: (result?.map ("result", ·)).toList

/-- What is made of an envelope with this error and this payload. -/
def outcome (c : Codec α) (error : String) (result? : Option Json) :
    Except Json.Fault (Except String α) :=
  if error = "" then .ok <$> c.ofJson (result?.getD .null).canonical else .ok (.error error)

/-- An envelope that is read counts by its error. -/
theorem decode_eq {e : Envelope} (h : codec.decode s = .ok e) :
    decode c s = if e.error = "" then .ok <$> c.ofJson (e.result.getD .null)
      else .ok (.error e.error) := by
  unfold decode
  rw [h]
  show (if e.isError then _ else _) = _
  by_cases herror : e.error = "" <;> simp [isError, herror]

/-- What is decoded comes from an envelope, whose error tells which of the two it is. -/
theorem of_decode_ok {r : Except String α} (h : decode c s = .ok r) :
    ∃ e, codec.decode s = .ok e ∧
      ((e.error = "" ∧ ∃ a, c.ofJson (e.result.getD .null) = .ok a ∧ .ok a = r) ∨
        (e.error ≠ "" ∧ .error e.error = r)) := by
  obtain ⟨e, he, -⟩ := bind_eq_ok_iff.mp h
  refine ⟨e, he, ?_⟩
  rw [decode_eq he] at h
  split at h
  · rename_i herror
    exact .inl ⟨herror, map_eq_ok_iff.mp h⟩
  · rename_i herror
    exact .inr ⟨herror, Except.ok.inj h⟩

/-- **The members of an envelope are read in any order,** and the payload may be absent. -/
theorem read_members_perm {error : String} {result? : Option Json} {ms : List (String × Json)}
    {depth : Nat} (hms : ms.Perm (members error result?))
    (hdepth : ∀ v ∈ result?, v.depth ≤ depth) :
    ∃ payload, codec.read (depth + 1) (Doc.ofJson (.obj ms)) = .ok { error, result := payload } ∧
      payload.getD .null = (result?.getD .null).canonical := by
  have hdocs : (Doc.ofMembers ms).Perm (Doc.ofMembers (members error result?)) :=
    Doc.ofMembers_perm hms
  -- what the payload is read as, or what stands for it
  obtain ⟨payload, hpayload, hresult⟩ : ∃ payload : Option Json,
      ((∃ d, (Doc.str (some "result"), d) ∈ Doc.ofMembers ms ∧
        Codec.any.optional.read depth d = .ok payload) ∨
        (∀ d, (Doc.str (some "result"), d) ∉ Doc.ofMembers ms) ∧ some none = some payload) ∧
      payload.getD .null = (result?.getD .null).canonical := by
    cases result? with
    | none =>
        refine ⟨none, .inr ⟨fun d hd => ?_, rfl⟩, rfl⟩
        have hd := hdocs.mem_iff.mp hd
        simp [members, Doc.ofMembers] at hd
    | some v =>
        obtain ⟨payload, hread, hpayload⟩ := read_payload (hdepth v rfl)
        exact ⟨payload, .inl ⟨_, hdocs.mem_iff.mpr (by simp [members, Doc.ofMembers]), hread⟩,
          hpayload⟩
  have herror : (Doc.str (some "error"), Doc.str (some error)) ∈ Doc.ofMembers ms :=
    hdocs.mem_iff.mpr List.mem_cons_self
  have htakes : Fields.Takes (Codec.reading depth)
      (.required "error" .text <| .defaulted "result" (.optional .any) none .done)
      (Doc.ofMembers ms) (error, payload, ()) :=
    ⟨.inl ⟨_, herror, rfl⟩, hpayload, trivial⟩
  have hdistinct : ((Doc.ofMembers ms).map Prod.fst).Nodup := by
    rw [(hdocs.map Prod.fst).nodup_iff]
    cases result? <;> simp [members, Doc.ofMembers]
  refine ⟨payload, (Codec.read_record_obj (by decide)).mpr
    ⟨rfl, htakes.admits hdistinct fun m hm => ?_, _, htakes, rfl⟩, hresult⟩
  have hm := hdocs.mem_iff.mp hm
  cases result? with
  | none =>
      obtain rfl : m = _ := List.mem_singleton.mp hm
      exact ⟨"error", List.mem_cons_self, rfl⟩
  | some v =>
      rcases List.mem_cons.mp hm with rfl | hm
      · exact ⟨"error", List.mem_cons_self, rfl⟩
      · obtain rfl : m = _ := List.mem_singleton.mp hm
        exact ⟨"result", List.mem_cons_of_mem _ List.mem_cons_self, rfl⟩

/-- The text of an envelope, its two members in any order. -/
theorem decode_members_perm {error : String} {result? : Option Json} {ms : List (String × Json)}
    (hms : ms.Perm (members error result?)) (hplain : ∀ v ∈ result?, v.Plain)
    (hdepth : ∀ v ∈ result?, v.depth < Doc.maxDepth) :
    decode c (Json.obj ms).render = outcome c error result? := by
  have hwritten : (Json.obj ms).Plain := by
    refine .obj fun e he => ?_
    rcases List.mem_cons.mp (hms.mem_iff.mp he) with rfl | he
    · exact .str error
    · obtain ⟨v, hv, rfl⟩ : ∃ v, result? = some v ∧ ("result", v) = e := by simpa using he
      exact hplain v hv
  have hnested : ∀ v ∈ result?, v.depth ≤ Doc.maxDepth - 1 := fun v hv =>
    Nat.le_pred_of_lt (hdepth v hv)
  obtain ⟨payload, hread, hresult⟩ := read_members_perm hms hnested
  have hdecode : codec.decode (Json.obj ms).render = .ok { error, result := payload } := by
    rw [Codec.decode_eq_ok_iff, Doc.parse_render hwritten]
    exact ⟨hread, rfl⟩
  rw [decode_eq hdecode, outcome, hresult]

/-- An envelope writes null for no payload. -/
theorem decode_written {error : String} {result? : Option Json} (hplain : ∀ v ∈ result?, v.Plain)
    (hdepth : ∀ v ∈ result?, v.depth < Doc.maxDepth) :
    decode c (encode { error, result := result? }) = outcome c error result? := by
  cases result? with
  | some v => exact decode_members_perm (.refl (members error (some v))) hplain hdepth
  | none =>
      have hwritten : decode c (Json.obj (members error (some .null))).render =
          outcome c error (some .null) := by
        refine decode_members_perm (.refl _) ?_ ?_
        · rintro v ⟨⟩
          exact .null
        · rintro v ⟨⟩
          decide
      exact hwritten

/-- **The error alone decides.** Take the text of an envelope with any error and any payload, or
with none, its two members in any order, or any other text that reads the same. If there is an
error, then it is all that is told, even if the payload has another type. If there is none, then the
outcome is that of taking the payload, with null for an absent one, and a payload of another type is
a fault. A failure is never taken for a success, not even one without words. And whatever the text
is: a success comes from an envelope without an error, and an error that is told has words. -/
theorem error_decides (c : Codec α) (error : String) (result? : Option Json)
    (hplain : ∀ v ∈ result?, v.Plain) (hdepth : ∀ v ∈ result?, v.depth < Doc.maxDepth) :
    (∀ ms s, ms.Perm (members error result?) → Doc.parse s = Doc.parse (Json.obj ms).render →
      decode c s = outcome c error result?) ∧
    decode c (encode { error, result := result? }) = outcome c error result? ∧
    decode c (failure error).encode =
      .ok (.error (if error = "" then "unknown error" else error)) ∧
    (∀ s a, decode c s = .ok (.ok a) → ∃ e, codec.decode s = .ok e ∧ e.error = "" ∧
      c.ofJson (e.result.getD .null) = .ok a) ∧
    ∀ s message, decode c s = .ok (.error message) → message ≠ "" := by
  refine ⟨fun ms s hms hs => ?_, decode_written hplain hdepth, ?_, fun s a h => ?_,
    fun s message h => ?_⟩
  · rw [← decode_members_perm hms hplain hdepth]
    unfold decode Codec.decode
    rw [hs]
  · have hwords : (failure error).error = if error = "" then "unknown error" else error := by
      simp only [failure, String.isEmpty_iff]
    have hne : (failure error).error ≠ "" := by
      rw [hwords]
      split
      · decide
      · assumption
    have hdecode : decode c (failure error).encode = outcome c (failure error).error none :=
      decode_written (by simp) (by simp)
    rw [hdecode, outcome, if_neg hne, hwords]
  · obtain ⟨e, he, ⟨herror, b, hb, heq⟩ | ⟨-, heq⟩⟩ := of_decode_ok h
    · cases heq
      exact ⟨e, he, herror, hb⟩
    · cases heq
  · obtain ⟨e, -, ⟨-, b, -, heq⟩ | ⟨herror, heq⟩⟩ := of_decode_ok h
    · cases heq
    · cases heq
      exact herror

/-- The payload stands first. It is taken, or it has another type, or it is not looked at. -/
theorem error_decides_reversed :
    let v : Json := .int 7
    let text := fun error => (Json.obj [("result", v), ("error", .str error)]).render
    (v.Plain ∧ v.depth < Doc.maxDepth) ∧ decode .int32 (text "") = .ok (.ok 7) ∧
      decode .text (text "") = .error (.invalidType (.num (.int 7)) "a string") ∧
      decode .text (text "no such root") = .ok (.error "no such root") := by
  intro v text
  have hplain : ∀ u ∈ some v, u.Plain := by
    rintro u ⟨⟩
    exact .int (by decide) (by decide)
  have hdepth : ∀ u ∈ some v, u.depth < Doc.maxDepth := by
    rintro u ⟨⟩
    decide
  have hmembers (error : String) :
      [("result", v), ("error", .str error)].Perm (members error (some v)) := .swap _ _ _
  exact ⟨⟨hplain v rfl, hdepth v rfl⟩,
    (error_decides .int32 "" _ hplain hdepth).1 _ _ (hmembers "") rfl,
    (error_decides .text "" _ hplain hdepth).1 _ _ (hmembers "") rfl,
    (error_decides .text "no such root" _ hplain hdepth).1 _ _ (hmembers _) rfl⟩

end Envelope

end EvmBridge
