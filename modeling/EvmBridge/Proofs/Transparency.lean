import EvmBridge.Proofs.Answers
import EvmBridge.Proofs.Atomicity
import EvmBridge.Proofs.BufferLedger
import EvmBridge.Proofs.NulFree

/-!
# The gateway is transparent

A result travels far: from a value to an envelope, to a text, to bytes in a buffer, and back again
on the other side. What arrives is what was sent (`Gateway.invoke_transparent`): the value as the
caller's type reads it, or the very wording of the refusal.

Every hop has its lemma. An envelope is read back (`Envelope.decode_success` and
`Envelope.decode_failure`), because answers are plain and no refusal is without words; a text passes
through a buffer (`Gateway.receive_answer`), because it holds no NUL character.
-/

namespace EvmBridge

/-! ## Envelopes -/

namespace Envelope

variable {α : Type} {c : Codec α}

/-- The payload of an envelope is read as it was written. Null is read as none at all. -/
theorem read_payload {v : Json} {depth : Nat} (hdepth : v.depth ≤ depth) :
    ∃ payload, Codec.any.optional.read depth (Doc.ofJson v) = .ok payload ∧
      payload.getD .null = v.canonical := by
  have hread := Doc.toJson_ofJson v depth hdepth
  cases v with
  | null => exact ⟨none, rfl, rfl⟩
  | _ =>
      -- any other value is read as some payload
      exact ⟨_, congrArg (some <$> ·) hread, rfl⟩

/-- Both members of an envelope are read in turn. -/
theorem read_members (error : String) (d : Doc) (depth : Nat) :
    codec.read (depth + 1)
      (.obj [(.str (some "error"), .str (some error)), (.str (some "result"), d)] true) =
      (fun payload => { error, result := payload }) <$> Codec.any.optional.read depth d := by
  unfold codec Codec.record
  rcases hread : Codec.any.optional.read depth d with fault | payload
  · simp only [Codec.readMembers, Fields.readMember, Fields.required, Fields.defaulted, hread]
    rfl
  · simp only [Codec.readMembers, Fields.readMember, Fields.required, Fields.defaulted, hread]
    rfl

/-- An envelope is read back as it was written, if its payload can be read. -/
theorem decode_encode {e : Envelope} {v : Json}
    (hwritten : codec.toJson e = .obj [("error", .str e.error), ("result", v)]) (hv : v.Plain) :
    codec.decode e.encode = (fun payload => { error := e.error, result := payload }) <$>
      Codec.any.optional.read (Doc.maxDepth - 1) (Doc.ofJson v) := by
  have hplain : (codec.toJson e).Plain := by
    rw [hwritten]
    refine .obj fun x hx => ?_
    simp only [List.mem_cons, List.not_mem_nil, or_false] at hx
    rcases hx with rfl | rfl
    · exact .str _
    · exact hv
  have hmembers := read_members e.error (Doc.ofJson v) (Doc.maxDepth - 1)
  unfold Codec.decode encode Codec.encode
  rw [Doc.parse_render hplain, hwritten]
  show (do let a ← codec.read Doc.maxDepth _; .ok a) = _
  rw [← hmembers]
  exact bind_pure _

theorem decode_success {v : Json} (hv : v.Plain) (hcanonical : v.canonical = v)
    (hdepth : v.depth < Doc.maxDepth) :
    decode c (success v).encode = .ok <$> c.ofJson v := by
  obtain ⟨payload, hread, hpayload⟩ :=
    @read_payload v (Doc.maxDepth - 1) (Nat.le_pred_of_lt hdepth)
  unfold decode
  rw [decode_encode (e := success v) (v := v) rfl hv, hread]
  show Except.ok <$> c.ofJson (payload.getD .null) = _
  rw [hpayload, hcanonical]

/-- A payload that is nested too deeply is no JSON to the reader. -/
theorem decode_deep {v : Json} (hv : v.Plain) (hdepth : Doc.maxDepth ≤ v.depth) :
    decode c (success v).encode = .error .malformed := by
  have hdeep : Doc.maxDepth - 1 < v.depth := hdepth
  have hread := Doc.toJson_ofJson_deep v _ hdeep
  have hpayload : Codec.any.optional.read (Doc.maxDepth - 1) (Doc.ofJson v) =
      .error .malformed := by
    cases v with
    | null => exact absurd hdeep (by simp [Json.depth])
    | _ => exact congrArg (some <$> ·) hread
  unfold decode
  rw [decode_encode (e := success v) (v := v) rfl hv, hpayload]
  rfl

/-- The words of a failure arrive as they are. -/
theorem decode_failure {message : String} (h : message ≠ "") :
    decode c (failure message).encode = .ok (.error message) := by
  have herror : (failure message).error = message := by
    simp [failure, String.isEmpty_iff, h]
  have hread := decode_encode (e := failure message) rfl .null
  have hfailed : ({ error := message, result := none } : Envelope).isError = true := by
    simp [isError, h]
  unfold decode
  rw [hread, herror]
  show (if ({ error := message, result := none } : Envelope).isError then _ else _) = _
  rw [if_pos hfailed]

/-- The envelope adds little to an answer. -/
theorem length_success (v : Json) : (success v).encode.toList.length = v.chars.length + 22 := by
  have herror : (Json.quotedChars "error").length = 7 := by decide +kernel
  have hresult : (Json.quotedChars "result").length = 8 := by decide +kernel
  have hempty : (Json.quotedChars "").length = 2 := by decide +kernel
  have htext : (success v).encode = (Json.obj [("error", .str ""), ("result", v)]).render := rfl
  rw [htext, Json.render, String.toList_ofList]
  simp only [Json.chars, Json.memberChars, Json.moreMemberChars, List.length_cons,
    List.length_append, List.length_nil, herror, hresult, hempty]
  omega

end Envelope

theorem append_ne_empty {s : String} (h : s ≠ "") (t : String) : s ++ t ≠ "" := by
  intro he
  have hlist := congrArg String.toList he
  rw [String.toList_append] at hlist
  exact h (String.toList_inj.mp (List.append_eq_nil_iff.mp hlist).1)

/-- No refusal is without words, so none is taken for a success. -/
theorem EngineError.message_ne_empty (e : EngineError) : e.message ≠ "" := by
  cases e with
  | state cause =>
      cases cause with
      | insufficientBalance =>
          refine append_ne_empty (append_ne_empty (append_ne_empty (append_ne_empty
            (append_ne_empty ?_ _) _) _) _) _
          decide
      | emptyAccount => exact append_ne_empty (by decide) _
  | _ => exact append_ne_empty (by decide) _

/-! ## Answers of the module -/

/-- What the caller is told of a fault. An accident has no words of its own. -/
def Fault.told : Fault → String
  | .error e => e.message
  | .overflow => "native panic"

theorem Fault.told_ne_empty (f : Fault) : f.told ≠ "" := by
  cases f with
  | error e => exact e.message_ne_empty
  | overflow => decide

/-- The envelope that tells of an outcome. -/
def Envelope.ofOutcome : Except Fault Json → Envelope
  | .ok v => success v
  | .error f => failure f.told

theorem Envelope.nul_encode (e : Envelope) : '\x00' ∉ e.encode.toList := Json.nul_render _

/-- A refusal is told to the log before it is told to the caller. -/
def Service.report (upcall : Upcall) (method : String) (out : Except Fault Json) (w : World) :
    World :=
  match out with
  | .error (.error e) =>
    Outgoing.log upcall .debug "call failed" [("method", .str method), ("err", .str e.message)] w
  | _ => w

/-- The log changes stores, views, tracers and files only if the callback that takes it does. -/
theorem Service.report_spares {upcall : Upcall} {method : String} {out : Except Fault Json}
    {w : World}
    (h : (∃ e, out = .error (.error e)) → ∀ sink args, w.sink = some sink →
      (upcall sink.handle args w).2.engine = w.engine ∧
        (upcall sink.handle args w).2.files = w.files) :
    (report upcall method out w).engine = w.engine ∧
      (report upcall method out w).files = w.files := by
  rcases out with (e | _) | v
  · exact Outgoing.log_spares (J := fun w' => w'.engine = w.engine ∧ w'.files = w.files)
      (fun _ hw => hw) ⟨rfl, rfl⟩ (h ⟨e, rfl⟩)
  · exact ⟨rfl, rfl⟩
  · exact ⟨rfl, rfl⟩

namespace EntryPoint

variable {upcall : Upcall} {method : String} {args : Option String} {out : Except Fault Json}
  {w w₁ : World}

/-- The outcome of a call is what its answer tells of, whichever way it ends. -/
theorem respond_eq {method? args? : Option Bytes} (hmethod : text? method? = some method)
    (hvalid : ¬ (args?.isSome && (text? args?).isNone))
    (h : Service.dispatch upcall method (text? args?) w = (out, w₁)) :
    respond upcall method? args? w =
      ((Envelope.ofOutcome out).encode, Service.report upcall method out w₁) := by
  unfold respond
  rw [hmethod]
  dsimp only
  rw [if_neg hvalid]
  unfold Service.invoke
  rw [Act.bind_ok (Act.attempt_eq h)]
  rcases out with (e | _) | v <;> rfl

theorem respond_encode (hmethod : '\x00' ∉ method.toList) (hargs : ∀ t ∈ args, '\x00' ∉ t.toList)
    (h : Service.dispatch upcall method args w = (out, w₁)) :
    respond upcall (some (Utf8.encode method)) (args.map Utf8.encode) w =
      ((Envelope.ofOutcome out).encode, Service.report upcall method out w₁) := by
  have hread : text? (args.map Utf8.encode) = args := by
    cases args with
    | none => rfl
    | some t => exact text?_encode (hargs t rfl)
  refine respond_eq (text?_encode hmethod) ?_ (by rwa [hread])
  rw [hread]
  cases args <;> simp

/-- No answer ends too early. -/
theorem nul_respond (upcall : Upcall) (method args : Option Bytes) (w : World) :
    '\x00' ∉ (respond upcall method args w).1.toList := by
  have hservice : ∀ m, Ends (Service.invoke upcall m (text? args) w)
      (fun text _ => '\x00' ∉ text.toList) fun _ _ => True := by
    intro m
    refine Act.ends_bind.mpr (Act.ends_attempt.mpr (.of_forall (fun v _ => ?_) fun f _ => ?_))
    · exact Envelope.nul_encode _
    · cases f
      · exact Envelope.nul_encode _
      · trivial
  unfold respond
  split
  · exact Envelope.nul_encode _
  · rename_i m _
    split
    · exact Envelope.nul_encode _
    · split <;> rename_i he
      · exact (hservice m).ok he
      · exact Envelope.nul_encode _

end EntryPoint

/-! ## Calls -/

namespace Gateway

variable {ρ : Type} {c : Codec ρ} {method args : String} {out : Except Fault Json}

/-- What the caller makes of an outcome. -/
def convey (c : Codec ρ) (method args : String) : Except Fault Json → Except GatewayError ρ
  | .ok v => (c.ofJson v).mapError fun fault =>
      .protocol method ("malformed envelope: " ++ (CodecError.json fault).message)
  | .error f => .error (.operation method args f.told)

/-- How the result of a call depends on the outcome inside. -/
structure Conveys (c : Codec ρ) (method args : String) (out : Except Fault Json)
    (r : Except GatewayError ρ) : Prop where
  /-- A result is a value that was read as the caller wants it. -/
  ok : ∀ a, r = .ok a ↔ ∃ v, out = .ok v ∧ c.ofJson v = .ok a
  /-- A failed operation is a fault, in its own words. -/
  operation : ∀ m t message, r = .error (.operation m t message) ↔
    ∃ f, out = .error f ∧ m = method ∧ t = args ∧ message = f.told
  /-- The protocol is violated by values of another type only. -/
  protocol : (∃ m reason, r = .error (.protocol m reason)) ↔
    ∃ v fault, out = .ok v ∧ c.ofJson v = .error fault

theorem conveys_convey (c : Codec ρ) (method args : String) (out : Except Fault Json) :
    Conveys c method args out (convey c method args out) := by
  rcases out with f | v
  · refine ⟨?_, ?_, ?_⟩ <;> simp [convey, eq_comm]
  · rcases hv : c.ofJson v with fault | a
    · refine ⟨?_, ?_, ?_⟩ <;> simp [convey, hv, Except.mapError]
    · refine ⟨?_, ?_, ?_⟩ <;> simp [convey, hv, Except.mapError]

/-- **The envelope of an outcome is understood.** -/
theorem interpret_encode (hanswers : ∀ v, out = .ok v → Service.Answers v)
    (hdepth : (Envelope.codec.toJson (Envelope.ofOutcome out)).depth ≤ Doc.maxDepth) :
    interpret c method args (.ok (Envelope.ofOutcome out).encode) = convey c method args out := by
  rcases out with f | v
  · unfold interpret
    simp only [Envelope.ofOutcome, Envelope.decode_failure f.told_ne_empty, convey]
  · have hv := hanswers v rfl
    have hnested : v.depth < Doc.maxDepth := by
      have hle : v.depth + 1 ≤ (Envelope.codec.toJson (Envelope.success v)).depth := by
        show v.depth + 1 ≤ max 0 (max v.depth 0) + 1
        omega
      exact Nat.lt_of_lt_of_le hle hdepth
    unfold interpret
    simp only [Envelope.ofOutcome, Envelope.decode_success hv.plain hv.canonical hnested, convey]
    cases c.ofJson v <;> rfl

/-- **An answer passes through its buffer.** -/
theorem receive_answer {text : String} {w : World} {id : BufferId} {b : Buffers}
    (hnul : '\x00' ∉ text.toList) (h : w.buffers.put (Utf8.encode text) = (some id, b)) :
    ∃ buffers, receive (EntryPoint.answer text w).1 (EntryPoint.answer text w).2 =
      (.ok text, { w with buffers }) := by
  have hanswer : EntryPoint.answer text w = (some id, { w with buffers := b }) := by
    unfold EntryPoint.answer
    rw [h]
  have htaken : (b.take id).1 = Utf8.encode text := by
    rw [Buffers.take_put h, Utf8.untilNul_encode hnul]
  refine ⟨(b.take id).2, ?_⟩
  rw [hanswer]
  show ((Utf8.decode (b.take id).1).mapError BufferError.notText, _) = _
  rw [htaken, Utf8.decode_encode]
  rfl

theorem crosses_iff {text : String} : crosses text = true ↔ '\x00' ∉ text.toList := by
  simp [crosses]

/-- The world in which a call is made: the call is announced in the journal. -/
def announced (method : String) (args : Option Json) (w : World) : World :=
  w.emit { severity := .trace, message := "invoke",
           fields := [("method", .str method), ("args", .str ((args.map Json.render).getD ""))] }

theorem nul_rendered (args : Option Json) : ∀ t ∈ args.map Json.render, '\x00' ∉ t.toList := by
  intro t ht
  obtain ⟨v, _, rfl⟩ := Option.map_eq_some_iff.mp ht
  exact v.nul_render

/-- The way in: method and arguments cross as they are, and the outcome is told in an answer. -/
theorem entry_announced {upcall : Upcall} {args : Option Json} {w w₁ : World}
    (hmethod : '\x00' ∉ method.toList)
    (hout : Service.dispatch upcall method (args.map Json.render) (announced method args w) =
      (out, w₁)) :
    EntryPoint.invoke upcall (some (Utf8.encode method)) ((args.map Json.render).map Utf8.encode)
        (announced method args w) =
      EntryPoint.answer (Envelope.ofOutcome out).encode (Service.report upcall method out w₁) := by
  unfold EntryPoint.invoke
  rw [EntryPoint.respond_encode hmethod (nul_rendered args) hout]

/-- A call makes of the answer what it means, and is told of in the journal. -/
theorem invoke_receives {upcall : Upcall} {args : Option Json} {w w₁ w₂ : World}
    {answer : Except BufferError String} (hmethod : '\x00' ∉ method.toList)
    (hout : Service.dispatch upcall method (args.map Json.render) (announced method args w) =
      (out, w₁))
    (hreceive :
      let answered :=
        EntryPoint.answer (Envelope.ofOutcome out).encode (Service.report upcall method out w₁)
      receive answered.1 answered.2 = (answer, w₂)) :
    ∃ journal, invoke (EntryPoint.invoke upcall) c method args w =
      (interpret c method ((args.map Json.render).getD "") answer, { w₂ with journal }) := by
  have hargs : (args.map Json.render).all crosses = true := by
    rw [Option.all_eq_true]
    exact fun t ht => crosses_iff.mpr (nul_rendered args t ht)
  have hentry := entry_announced hmethod hout
  obtain ⟨journal, hjournal⟩ := World.emitAll_eq w₂
    (outcomeEvents (interpret c method ((args.map Json.render).getD "") answer))
  refine ⟨journal, ?_⟩
  unfold announced at hentry
  unfold invoke exchange
  simp only [crosses_iff.mpr hmethod, hargs, hentry, hreceive, hjournal, Bool.not_true,
    Bool.false_eq_true, if_false]

/-- A call brings back the text that tells of its outcome. -/
theorem invoke_arrives {upcall : Upcall} {args : Option Json} {w w₁ : World} {id : BufferId}
    {b : Buffers} (hmethod : '\x00' ∉ method.toList)
    (hout : Service.dispatch upcall method (args.map Json.render) (announced method args w) =
      (out, w₁))
    (hput : (Service.report upcall method out w₁).buffers.put
      (Utf8.encode (Envelope.ofOutcome out).encode) = (some id, b)) :
    ∃ buffers journal, invoke (EntryPoint.invoke upcall) c method args w =
      (interpret c method ((args.map Json.render).getD "") (.ok (Envelope.ofOutcome out).encode),
        { Service.report upcall method out w₁ with buffers, journal }) := by
  -- the way back: the buffer holds the answer
  obtain ⟨buffers, hreceive⟩ := receive_answer (Envelope.nul_encode _) hput
  obtain ⟨journal, hinvoke⟩ := invoke_receives (c := c) hmethod hout hreceive
  exact ⟨buffers, journal, hinvoke⟩

/-- Without a buffer, nothing comes back. -/
theorem invoke_starves {upcall : Upcall} {args : Option Json} {w w₁ : World}
    (hmethod : '\x00' ∉ method.toList)
    (hout : Service.dispatch upcall method (args.map Json.render) (announced method args w) =
      (out, w₁))
    (hput : ((Service.report upcall method out w₁).buffers.put
      (Utf8.encode (Envelope.ofOutcome out).encode)).1 = none) :
    ∃ buffers journal reason, invoke (EntryPoint.invoke upcall) c method args w =
      (.error (.protocol method reason),
        { Service.report upcall method out w₁ with buffers, journal }) := by
  rcases hb : (Service.report upcall method out w₁).buffers.put
    (Utf8.encode (Envelope.ofOutcome out).encode) with ⟨id?, buffers⟩
  rw [hb] at hput
  cases hput
  have hanswer : EntryPoint.answer (Envelope.ofOutcome out).encode
      (Service.report upcall method out w₁) =
      (none, { Service.report upcall method out w₁ with buffers }) := by
    unfold EntryPoint.answer
    rw [hb]
  have hreceive : receive (EntryPoint.answer (Envelope.ofOutcome out).encode
        (Service.report upcall method out w₁)).1
      (EntryPoint.answer (Envelope.ofOutcome out).encode
        (Service.report upcall method out w₁)).2 =
      (.error .null, { Service.report upcall method out w₁ with buffers }) := by
    rw [hanswer]
    rfl
  obtain ⟨journal, hinvoke⟩ := invoke_receives (c := c) hmethod hout hreceive
  exact ⟨buffers, journal, _, hinvoke⟩

/-- A call carries an outcome all the way. -/
theorem invoke_conveys {upcall : Upcall} {args : Option Json} {w w₁ : World} {id : BufferId}
    {b : Buffers} (hmethod : '\x00' ∉ method.toList)
    (hout : Service.dispatch upcall method (args.map Json.render) (announced method args w) =
      (out, w₁))
    (hdepth : (Envelope.codec.toJson (Envelope.ofOutcome out)).depth ≤ Doc.maxDepth)
    (hput : (Service.report upcall method out w₁).buffers.put
      (Utf8.encode (Envelope.ofOutcome out).encode) = (some id, b)) :
    ∃ buffers journal, invoke (EntryPoint.invoke upcall) c method args w =
      (convey c method ((args.map Json.render).getD "") out,
        { Service.report upcall method out w₁ with buffers, journal }) := by
  have hinterpret : interpret c method ((args.map Json.render).getD "")
      (.ok (Envelope.ofOutcome out).encode) = _ :=
    interpret_encode (fun v hv => Service.dispatch_answers (hv ▸ hout)) hdepth
  rw [← hinterpret]
  exact invoke_arrives hmethod hout hput

/-- **The gateway is transparent.** Take any host, any world, any method and any arguments, and any
type of results.

A method whose name holds a NUL character is refused, and nothing is called. For any other, if a
buffer for the answer can be had and the answer is not nested too deeply to be read, the result is
told by the outcome of the dispatch alone, as `Conveys` says, and the world is that which the
dispatch left, once a refusal has been reported to the log; buffers and journal apart. The report
changes nothing else but through the callback that takes it.

Nothing is cut on the way: neither arguments nor answers have a zero byte. -/
theorem invoke_transparent (upcall : Upcall) (c : Codec ρ) (method : String) (args : Option Json)
    (w : World) :
    ('\x00' ∈ method.toList → ∀ entry : EntryPoint,
      invoke entry c method args w = (.error (.invalidString method), w)) ∧
    ('\x00' ∉ method.toList → ∀ out w₁ id b,
      Service.dispatch upcall method (args.map Json.render) (announced method args w) =
        (out, w₁) →
      (Envelope.codec.toJson (Envelope.ofOutcome out)).depth ≤ Doc.maxDepth →
      (Service.report upcall method out w₁).buffers.put
        (Utf8.encode (Envelope.ofOutcome out).encode) = (some id, b) →
      ∃ r w', invoke (EntryPoint.invoke upcall) c method args w = (r, w') ∧
        Conveys c method ((args.map Json.render).getD "") out r ∧
        (∃ buffers journal, w' = { Service.report upcall method out w₁ with buffers, journal }) ∧
        (((∃ e, out = .error (.error e)) → ∀ sink text, w₁.sink = some sink →
            (upcall sink.handle text w₁).2.engine = w₁.engine ∧
              (upcall sink.handle text w₁).2.files = w₁.files) →
          w'.engine = w₁.engine ∧ w'.files = w₁.files)) ∧
    (∀ text ∈ args.map Json.render, 0 ∉ Utf8.encode text) ∧
    ∀ method args w, 0 ∉ Utf8.encode (EntryPoint.respond upcall method args w).1 := by
  refine ⟨fun hmethod entry => ?_, ?_, ?_, ?_⟩
  · have hstops : crosses method = false := by
      rw [← Bool.not_eq_true, crosses_iff]
      exact not_not_intro hmethod
    unfold invoke exchange
    rw [hstops]
    rfl
  · intro hmethod out w₁ id b hout hdepth hput
    obtain ⟨buffers, journal, hinvoke⟩ := invoke_conveys (c := c) hmethod hout hdepth hput
    refine ⟨_, _, hinvoke, conveys_convey _ _ _ _, ⟨buffers, journal, rfl⟩, fun hquiet => ?_⟩
    exact Service.report_spares hquiet
  · exact fun text htext => Utf8.zero_encode (nul_rendered args text htext)
  · exact fun method args w => Utf8.zero_encode (EntryPoint.nul_respond upcall method args w)

/-- Names that hold a NUL character are refused at once; arguments that hold one are quoted. -/
theorem invoke_transparent_quoted :
    let upcall : Upcall := fun _ _ w => (none, w)
    let args : Json := .str "a\x00b"
    invoke (EntryPoint.invoke upcall) Codec.any "a\x00b" (some args) {} =
        (.error (.invalidString "a\x00b"), {}) ∧
      ∃ w', invoke (EntryPoint.invoke upcall) Codec.any "DatabaseOpenMemoryDB" (some args) {} =
          (.error (.operation "DatabaseOpenMemoryDB" "\"a\\u0000b\""
            "invalid arguments: method takes no arguments"), w') ∧
        w'.engine = {} := by
  intro upcall args
  have hname := (invoke_transparent upcall Codec.any "a\x00b" (some args) {}).1 (by decide)
    (EntryPoint.invoke upcall)
  have hrefused : Request.ofCall "DatabaseOpenMemoryDB" (some args.render) =
      .error (.invalidArguments .superfluous) := by
    have hblank : ¬ (some args.render).all Text.isBlank = true := by decide +kernel
    show (fun _ => Request.openMemory) <$> Request.noParams (some args.render) = _
    rw [Request.noParams, if_neg hblank]
    rfl
  have hput : (({} : Buffers).put (Utf8.encode (Envelope.ofOutcome
      (.error (.error (.invalidArguments .superfluous)))).encode)).1 = some 0 := by
    decide +kernel
  obtain ⟨r, w', hinvoke, hr, _, hw'⟩ :=
    (invoke_transparent upcall Codec.any "DatabaseOpenMemoryDB" (some args) {}).2.1 (by decide)
      (.error (.error (.invalidArguments .superfluous)))
      (announced "DatabaseOpenMemoryDB" (some args) {}) 0 _
      (Act.bind_error (Act.ofExcept_error hrefused)) (by decide) (Prod.ext hput rfl)
  have hargs : ((some args).map Json.render).getD "" = "\"a\\u0000b\"" := by decide +kernel
  have hquiet : ∀ sink, (announced "DatabaseOpenMemoryDB" (some args) {}).sink ≠ some sink := by
    intro sink hsink
    cases hsink
  refine ⟨hname, w', ?_, (hw' fun _ sink _ hsink => absurd hsink (hquiet sink)).1⟩
  rw [hinvoke, (hr.operation _ _ _).mpr ⟨_, rfl, rfl, hargs.symm, rfl⟩]
  rfl

/-- **The log has the last word.** The method does not exist, so its dispatch changes nothing; but
then the record of the refusal is sent to a callback that adds to a balance. -/
theorem invoke_not_transparent :
    let w : World :=
      { engine := { views := { objects := [{ store := 0 }] } }, connected := true
        sink := some ⟨1, .debug⟩ }
    let host := Executor.meddlingHost
    let dispatched := Service.dispatch host "Nowhere" none (announced "Nowhere" none w)
    let response := Envelope.ofOutcome dispatched.1
    let called := invoke (EntryPoint.invoke host) Codec.any "Nowhere" none w
    dispatched.1 = .error (.error (.methodNotFound "Nowhere")) ∧
      (Envelope.codec.toJson response).depth ≤ Doc.maxDepth ∧
      (w.buffers.put (Utf8.encode response.encode)).1 = some 0 ∧
      (dispatched.2.view 0).balance .zero = 0 ∧ (called.2.view 0).balance .zero = 1 := by
  intro w host dispatched response called
  refine ⟨rfl, ?_, ?_, ?_, ?_⟩ <;> decide +kernel

end Gateway

end EvmBridge
