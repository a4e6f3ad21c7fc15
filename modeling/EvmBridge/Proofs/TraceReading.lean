import EvmBridge.Proofs.FrameDepth
import EvmBridge.Proofs.Transparency

/-!
# Recordings as they are read

The recording of a call tracer is the one answer of the module that nests without bound. The module
writes any of them. The reader on the other side goes 127 levels deep, two of which are the envelope
and the record of the result.

So a recording of up to 63 levels of frames arrives as it is, and a deeper one is taken for a
violation of the protocol (`Gateway.traceResult_read`).
-/

namespace EvmBridge

/-! ## Requests to a tracer -/

/-- What requests tell, one after the other, if none of them is refused. -/
def Request.captures (rs : List Request) : List Capture :=
  rs.filterMap fun r => r.capture?.map Prod.snd

/-- The view of a top frame has to be there; no other request to a tracer names one. -/
def World.hears (w : World) : Request → Bool
  | .frameStart p => (w.engine.views.find p.stateDB).isOk
  | _ => true

namespace Service

variable {upcall : Upcall} {w : World} {h : Handle} {i : Nat} {t : Tracer} {c : Capture}

/-- The world after requests were served, one after the other. -/
def served (upcall : Upcall) (rs : List Request) (w : World) : World :=
  rs.foldl (fun w r => (run upcall r w).2) w

theorem updateTracer_eq (hi : w.engine.tracers.find h = .ok i) (f : Tracer → Tracer) :
    updateTracer h f w = (.ok (), w.setTracer i (f (w.tracer i))) :=
  Act.bind_ok (Act.ofExcept_ok hi)

/-- A tracer is told what a request says, unless the request is refused. -/
theorem run_capture {r : Request} (hr : r.capture? = some (h, c))
    (hi : w.engine.tracers.find h = .ok i) :
    (run upcall r w).2 = if w.hears r then w.setTracer i ((w.tracer i).tell c) else w := by
  have htold : ∀ {ρ : Type} {m : Method ρ Unit},
      (reply m <$> updateTracer h (·.tell c)) w =
        (.ok (reply m ()), w.setTracer i ((w.tracer i).tell c)) :=
    fun {_ _} => Act.map_ok (updateTracer_eq hi _)
  cases r with
  | txStart | txEnd | frameEnd | frameEnter | frameExit =>
      cases hr
      exact congrArg Prod.snd htold
  | frameStart p =>
      cases hr
      cases hv : w.engine.views.find p.stateDB with
      | error e =>
          rw [World.hears, hv]
          exact congrArg Prod.snd (Act.map_error (Act.bind_error (Act.ofExcept_error hv)))
      | ok j =>
          rw [World.hears, hv]
          refine congrArg Prod.snd (Act.map_ok (r := ()) ?_)
          exact (Act.bind_ok (Act.ofExcept_ok hv)).trans (updateTracer_eq hi _)
  | _ => exact absurd hr (by simp [Request.capture?])

/-- **Requests to a tracer tell it what they say**, those that are refused apart; its handle still
leads to it, and no buffer is asked for. -/
theorem served_captures {rs : List Request} (hi : w.engine.tracers.find h = .ok i)
    (ht : w.Records i t) (hrs : ∀ r ∈ rs, ∃ c, r.capture? = some (h, c)) :
    (served upcall rs w).engine.tracers.find h = .ok i ∧
      (served upcall rs w).Records i (t.tellAll (Request.captures (rs.filter w.hears))) ∧
      (served upcall rs w).buffers = w.buffers := by
  induction rs generalizing w t with
  | nil => exact ⟨hi, ht, rfl⟩
  | cons r rs ih =>
      obtain ⟨c, hc⟩ := hrs r List.mem_cons_self
      have hrest : ∀ r ∈ rs, ∃ c, r.capture? = some (h, c) :=
        fun r hr => hrs r (List.mem_cons_of_mem _ hr)
      have hserved : served upcall (r :: rs) w = served upcall rs (run upcall r w).2 := rfl
      have hrun := @run_capture upcall w h i c r hc hi
      by_cases hears : w.hears r
      · have hcaptures : Request.captures ((r :: rs).filter w.hears) =
            c :: Request.captures (rs.filter w.hears) := by
          rw [List.filter_cons_of_pos hears]
          exact List.filterMap_cons_some (by rw [hc]; rfl)
        rw [hserved, hrun, if_pos hears, ht.tracer, hcaptures]
        -- what a tracer was told changes no view, so the others are heard as before
        exact ih (w := w.setTracer i (t.tell c)) hi (ht.setTracer _) hrest
      · rw [hserved, hrun, if_neg hears, List.filter_cons_of_neg hears]
        exact ih hi ht hrest

end Service

/-! ## Reading a recording -/

namespace Service

variable {upcall : Upcall} {w : World} {h : Handle} {i : Nat} {v : Json}

theorem dispatch_traceResult (hi : w.engine.tracers.find h = .ok i) :
    dispatch upcall "TracerResult" (some (TracerParams.codec.encode { tracerHandle := h })) w =
      (.ok (reply .traceResult { result := (w.tracer i).result }), w) := by
  have hread : Request.ofCall "TracerResult"
      (some (TracerParams.codec.encode { tracerHandle := h })) =
        .ok (.traceResult { tracerHandle := h }) :=
    congrArg (Request.traceResult <$> ·)
      (Request.params_encode (m := .traceResult) TracerParams.roundTrips _)
  rw [dispatch_eq hread]
  exact run_traceResult hi

theorem reply_traceResult (hv : v.canonical = v) :
    reply .traceResult { result := v } = .obj [("result", v)] := by
  show Json.obj (OrdMap.ofList [("result", v.canonical)]).toList = _
  rw [hv]
  rfl

end Service

/-! ## How long it is -/

namespace Json

/-- How much room a member of an object takes, with its colon and a comma. -/
def memberLength (e : String × Json) : Nat := (quotedChars e.1).length + e.2.chars.length + 2

theorem length_moreMemberChars (ms : List (String × Json)) :
    (moreMemberChars ms).length = (ms.map memberLength).sum + 1 := by
  induction ms with
  | nil => rfl
  | cons e ms ih =>
      simp only [moreMemberChars, List.length_cons, List.length_append, ih, List.map_cons,
        List.sum_cons, memberLength]
      omega

theorem length_obj_le (ms : List (String × Json)) :
    (obj ms).chars.length ≤ (ms.map memberLength).sum + 2 := by
  cases ms with
  | nil => exact Nat.le_refl 2
  | cons e ms =>
      simp only [chars, memberChars, List.length_cons, List.length_append, length_moreMemberChars,
        List.map_cons, List.sum_cons, memberLength]
      omega

/-- An object is no longer than all its members, those of one name included. -/
theorem length_object_le (ms : List (String × Json)) :
    (object ms).chars.length ≤ (ms.map memberLength).sum + 2 := by
  have hsum : ∀ m : OrdMap String Json,
      ((ms.foldl (fun m e => m.insert e.1 e.2) m).toList.map memberLength).sum ≤
        (m.toList.map memberLength).sum + (ms.map memberLength).sum := by
    induction ms with
    | nil => exact fun m => Nat.le_refl _
    | cons e ms ih =>
        intro m
        have hfirst : ((m.insert e.1 e.2).toList.map memberLength).sum ≤
            (m.toList.map memberLength).sum + memberLength e :=
          Nat.le.intro (OrdMap.sum_insertList memberLength e.1 e.2 m.increasing)
        have hrest := ih (m.insert e.1 e.2)
        rw [List.foldl_cons, List.map_cons, List.sum_cons]
        omega
  have hmembers := hsum OrdMap.empty
  rw [show ((OrdMap.empty : OrdMap String Json).toList.map memberLength).sum = 0 from rfl,
    Nat.zero_add] at hmembers
  exact Nat.le_trans (length_obj_le _) (Nat.add_le_add_right hmembers 2)

end Json

namespace Gateway

variable {upcall : Upcall} {w : World} {h : Handle} {i : Nat} {t : Tracer}

/-- The text that answers with a recording. -/
def recordingText (t : Tracer) : String :=
  (Envelope.ofOutcome (.ok (Service.reply .traceResult { result := t.result }))).encode

/-- The complaint about an answer that is not JSON. The reason is as the reader here words it. -/
def noJson (method : String) : GatewayError :=
  .protocol method ("malformed envelope: " ++ (CodecError.json .malformed).message)

/-- It is little longer than the recording. -/
theorem length_recordingText (hkind : t.kind = .call) :
    (recordingText t).toList.length = t.result.chars.length + 33 := by
  have hreply := Service.reply_traceResult (Tracer.canonical_result hkind)
  have hresult : (Json.quotedChars "result").length = 8 := by decide +kernel
  have htext : recordingText t = (Envelope.success (.obj [("result", t.result)])).encode := by
    rw [recordingText, hreply]
    rfl
  rw [htext, Envelope.length_success]
  simp only [Json.chars, Json.memberChars, Json.moreMemberChars, List.length_cons,
    List.length_append, List.length_nil, hresult]
  omega

theorem interpret_recording (hkind : t.kind = .call) (args : String) :
    interpret TracerResult.codec "TracerResult" args (.ok (recordingText t)) =
      if t.levels ≤ 63 then .ok { result := t.result } else .error (noJson "TracerResult") := by
  have hcanonical := Tracer.canonical_result hkind
  have hdepth := Tracer.depth_result hkind
  have hreply := Service.reply_traceResult hcanonical
  have hanswers : Service.Answers (.obj [("result", t.result)]) :=
    hreply ▸ Service.answers_reply (TracerResult.plain_toJson t.plain_result)
  have hlevels : (Json.obj [("result", t.result)]).depth = 2 * t.levels - 1 + 1 := by
    rw [← hdepth]
    exact congrArg (· + 1) (Nat.max_eq_left (Nat.zero_le _))
  unfold interpret recordingText
  rw [hreply]
  dsimp only [Envelope.ofOutcome]
  by_cases hfew : t.levels ≤ 63
  · have hread : TracerResult.codec.ofJson (.obj [("result", t.result)]) =
        .ok { result := t.result.canonical } := rfl
    rw [Envelope.decode_success hanswers.plain hanswers.canonical
      (by rw [hlevels, Doc.maxDepth]; omega), hread, hcanonical, if_pos hfew]
    rfl
  · rw [Envelope.decode_deep hanswers.plain (by rw [hlevels, Doc.maxDepth]; omega), if_neg hfew]
    rfl

/-- What comes of asking for a recording depends on how deep it is, and on nothing else. -/
theorem callWith_traceResult (hi : w.engine.tracers.find h = .ok i)
    (hkind : (w.tracer i).kind = .call)
    (hput : (w.buffers.put (Utf8.encode (recordingText (w.tracer i)))).1.isSome) :
    (callWith (EntryPoint.invoke upcall) .traceResult { tracerHandle := h } w).1 =
      if (w.tracer i).levels ≤ 63 then .ok { result := (w.tracer i).result }
      else .error (noJson "TracerResult") := by
  obtain ⟨id, b, hb⟩ : ∃ id b, w.buffers.put (Utf8.encode (recordingText (w.tracer i))) =
      (some id, b) := by
    rcases hb : w.buffers.put (Utf8.encode (recordingText (w.tracer i))) with ⟨_ | id, b⟩
    · rw [hb] at hput
      exact absurd hput (by simp)
    · exact ⟨id, b, rfl⟩
  let args := TracerParams.codec.toJson { tracerHandle := h }
  have hout : Service.dispatch upcall "TracerResult" ((some args).map Json.render)
      (announced "TracerResult" (some args) w) =
        (.ok (Service.reply .traceResult { result := (w.tracer i).result }), _) :=
    Service.dispatch_traceResult hi
  obtain ⟨buffers, journal, harrives⟩ := @invoke_arrives TracerResult TracerResult.codec
    "TracerResult" _ upcall (some args) w _ id b (by decide) hout hb
  show (invoke (EntryPoint.invoke upcall) TracerResult.codec "TracerResult" (some args) w).1 = _
  rw [harrives]
  dsimp only [Option.map_some, Option.getD_some]
  exact interpret_recording hkind args.render

/-- **A recording is read back as it is held, if no more than 63 frames are nested in it.** Take any
call tracer in any state, and any requests that tell it something, in any order. If a buffer for the
answer can be had, the recording that the tracer holds afterwards is read as it is, unless it is
deeper; then its reader takes it for a violation of the protocol, though all of it was written. A
tracer that was new has nested at most the frames it was told to enter. -/
theorem traceResult_read (upcall : Upcall) (rs : List Request)
    (hi : w.engine.tracers.find h = .ok i) (hkind : (w.tracer i).kind = .call)
    (hrs : ∀ r ∈ rs, ∃ c, r.capture? = some (h, c)) :
    let w' := Service.served upcall rs w
    let t := w'.tracer i
    let read := (callWith (EntryPoint.invoke upcall) .traceResult { tracerHandle := h } w').1
    (w'.buffers.put (Utf8.encode (recordingText t))).1.isSome →
      (t.levels ≤ 63 → read = .ok { result := t.result }) ∧
      (63 < t.levels → ∃ reason, read = .error (.protocol "TracerResult" reason)) ∧
      ((w.tracer i).opened = [] → (w.tracer i).root = none →
        t.levels ≤ (Request.captures rs).countP Capture.isEnter + 1) := by
  intro w' t read hput
  obtain ⟨hfind, ht, _⟩ :=
    @Service.served_captures upcall w h i _ rs hi (World.records_of_call hkind) hrs
  have htold : t = (w.tracer i).tellAll (Request.captures (rs.filter w.hears)) := ht.tracer
  have hcall : t.kind = .call := by rw [htold, Tracer.kind_tellAll, hkind]
  have hread := @callWith_traceResult upcall _ _ _ hfind hcall hput
  refine ⟨fun hfew => hread.trans (if_pos hfew),
    fun hmany => ⟨_, hread.trans (if_neg (Nat.not_le.mpr hmany))⟩, fun hopened hroot => ?_⟩
  have hnew : (w.tracer i).Small 0 := by
    refine ⟨?_, fun root h => ?_⟩
    · rw [hopened]
      exact Nat.zero_le _
    · rw [hroot] at h
      exact absurd h (by simp)
  have hlevels := (hnew.tellAll (Request.captures (rs.filter w.hears))).levels
  have hsub : (Request.captures (rs.filter w.hears)).Sublist (Request.captures rs) :=
    List.filter_sublist.filterMap _
  have hfewer := hsub.countP_le (p := Capture.isEnter)
  rw [htold]
  omega

/-! ## Frames entered one in the other -/

/-- A call of no account to itself. -/
def idle : FrameStart where
  opCode := .call
  sender := .zero
  target := .zero
  gas := 0

/-- Frames inside each other, the outermost one around this many. -/
def tower : Nat → Frame
  | 0 => .node idle {} []
  | n + 1 => .node idle {} [tower n]

theorem levels_tower (n : Nat) : (tower n).levels = n + 1 := by
  induction n with
  | zero => rfl
  | succ n ih =>
      rw [tower, Frame.levels, Frame.levelsOf, Frame.levelsOf, ih]
      omega

theorem fold_tower {o : OpenFrame} {m : Nat} (ho : o.close {} = tower m) (n : Nat) :
    Tracer.fold {} (o :: List.replicate n ⟨idle, []⟩) = some (tower (m + n)) := by
  induction n generalizing o m with
  | zero =>
      rw [List.replicate_zero, Tracer.fold, ho]
      rfl
  | succ n ih =>
      rw [List.replicate_succ, Tracer.fold, ho, Nat.add_comm n 1, ← Nat.add_assoc]
      exact ih rfl

/-- Requests to a tracer: a top frame starts, frames are entered one in the other, and all end. -/
def nest (frames : Nat) : List Request :=
  .frameStart { tracerHandle := 1, stateDB := 1, context := {}, sender := .zero, target := .zero,
                create := false, gas := 0 } ::
    List.replicate frames (.frameEnter { tracerHandle := 1, opCode := .call, sender := .zero,
                                         target := .zero, gas := 0 }) ++
    [.frameEnd { tracerHandle := 1, gasUsed := 0 }]

/-- A call tracer that was told nothing, and a view. -/
def freshWorld : World where
  engine :=
    { views :=
        { objects := [{ store := 0 }], handles := { current := 1, used := .ofList [(1, 0)] } }
      tracers :=
        { objects := [{ kind := .call }], handles := { current := 1, used := .ofList [(1, 0)] } } }

theorem nest_captures (frames : Nat) : ∀ r ∈ nest frames, ∃ c, r.capture? = some (1, c) := by
  intro r hr
  simp only [nest, List.cons_append, List.mem_cons, List.mem_append, List.mem_replicate,
    List.not_mem_nil, or_false] at hr
  rcases hr with rfl | ⟨_, rfl⟩ | rfl
  · exact ⟨_, rfl⟩
  · exact ⟨_, rfl⟩
  · exact ⟨_, rfl⟩

theorem hears_nest (frames : Nat) : ∀ r ∈ nest frames, freshWorld.hears r := by
  intro r hr
  simp only [nest, List.cons_append, List.mem_cons, List.mem_append, List.mem_replicate,
    List.not_mem_nil, or_false] at hr
  rcases hr with rfl | ⟨_, rfl⟩ | rfl
  · exact rfl
  · exact rfl
  · exact rfl

theorem captures_nest (frames : Nat) :
    Request.captures (nest frames) =
      .start idle :: (List.replicate frames (.enter idle) ++ [.finish {} 0]) := by
  have henters : (List.replicate frames (Request.frameEnter {
      tracerHandle := 1, opCode := .call, sender := .zero, target := .zero, gas := 0 })).filterMap
        (fun r => r.capture?.map Prod.snd) = List.replicate frames (.enter idle) :=
    List.filterMap_replicate_of_some rfl
  unfold Request.captures nest
  rw [List.filterMap_append, List.filterMap_cons_some (b := .start idle)
    (f := fun r : Request => r.capture?.map Prod.snd) rfl, henters]
  rfl

theorem opened_enters (t : Tracer) (n : Nat) :
    (t.tellAll (List.replicate n (.enter idle))).opened =
      List.replicate n ⟨idle, []⟩ ++ t.opened := by
  induction n generalizing t with
  | zero => rfl
  | succ n ih =>
      rw [List.replicate_succ, Tracer.tellAll_cons, ih]
      show List.replicate n _ ++ (⟨idle, []⟩ :: t.opened) = _
      rw [List.append_cons, ← List.replicate_succ', List.replicate_succ]

/-- What was entered is what is recorded. -/
theorem root_nest (frames : Nat) :
    (Tracer.tellAll { kind := .call } (Request.captures (nest frames))).root =
      some (tower frames) := by
  have hopened : ((Tracer.tell { kind := .call } (.start idle)).tellAll
      (List.replicate frames (.enter idle))).opened =
        ⟨idle, []⟩ :: List.replicate frames ⟨idle, []⟩ := by
    rw [opened_enters, ← List.replicate_succ, List.replicate_succ']
    rfl
  have hfold := fold_tower (o := ⟨idle, []⟩) (m := 0) rfl frames
  rw [Nat.zero_add, ← hopened] at hfold
  rw [captures_nest, Tracer.tellAll_cons, Tracer.tellAll_append, Tracer.tellAll_cons,
    Tracer.tell_finish_some hfold]
  rfl

/-- The requests are all heard, and the recording is of as many frames as were entered. -/
theorem served_nest (upcall : Upcall) (frames : Nat) :
    let w' := Service.served upcall (nest frames) freshWorld
    w'.engine.tracers.find 1 = .ok 0 ∧ (w'.tracer 0).kind = .call ∧
      (w'.tracer 0).root = some (tower frames) ∧ w'.buffers = {} := by
  intro w'
  obtain ⟨hfind, ht, hbuffers⟩ := @Service.served_captures upcall freshWorld 1 0 { kind := .call }
    (nest frames) rfl rfl (nest_captures frames)
  rw [List.filter_eq_self.mpr (hears_nest frames)] at ht
  refine ⟨hfind, ?_, ?_, hbuffers⟩
  · rw [ht.tracer, Tracer.kind_tellAll]
  · rw [ht.tracer, root_nest]

theorem length_tower (n : Nat) : (tower n).toJson.chars.length ≤ 512 * (n + 1) := by
  induction n with
  | zero => exact (by decide +kernel : (tower 0).toJson.chars.length ≤ 512)
  | succ n ih =>
      have hown : ((Frame.ownMembers idle {}).map Json.memberLength).sum ≤ 400 := by
        decide +kernel
      have hcalls : Json.memberLength ("calls", .arr [(tower n).toJson]) =
          (tower n).toJson.chars.length + 11 := by
        have hname : (Json.quotedChars "calls").length = 7 := by decide +kernel
        simp only [Json.memberLength, Json.chars, Json.itemChars, Json.moreItemChars,
          List.length_cons, List.length_append, List.length_nil, hname]
        omega
      have hle := Json.length_object_le
        (Frame.ownMembers idle {} ++ [("calls", .arr [(tower n).toJson])])
      rw [List.map_append, List.sum_append, List.map_singleton, List.sum_singleton, hcalls] at hle
      refine Nat.le_trans hle ?_
      omega

/-- A buffer can be had for the text of so few frames. -/
theorem isSome_put_tower {frames : Nat} (hkind : t.kind = .call)
    (hroot : t.root = some (tower frames)) (hfew : frames < 1024) :
    (({} : Buffers).put (Utf8.encode (recordingText t))).1.isSome := by
  refine Buffers.isSome_put rfl ?_
  have hresult : t.result = (tower frames).toJson := by
    unfold Tracer.result
    rw [hroot, hkind]
  have hbytes := Utf8.length_encode_le (recordingText t)
  have hlength := length_tower frames
  rw [length_recordingText hkind, hresult] at hbytes
  rw [Buffers.maxSize]
  omega

/-- Sixty-two frames are entered, and can be read. -/
theorem traceResult_read_sixtyTwo :
    let w' := Service.served (Proxy.nested 1) (nest 62) freshWorld
    (w'.tracer 0).levels = 63 ∧
      (callWith (EntryPoint.invoke (Proxy.nested 1)) .traceResult { tracerHandle := 1 } w').1 =
        .ok { result := (w'.tracer 0).result } := by
  intro w'
  obtain ⟨_, hkind, hroot, hbuffers⟩ := served_nest (Proxy.nested 1) 62
  have hput := isSome_put_tower hkind hroot (by decide)
  have hlevels : (w'.tracer 0).levels = 63 := by
    rw [Tracer.levels, hroot]
    exact levels_tower 62
  rw [← hbuffers] at hput
  have hread := traceResult_read (Proxy.nested 1) (nest 62) (w := freshWorld) (h := 1) (i := 0)
    rfl rfl (nest_captures 62) hput
  exact ⟨hlevels, hread.1 (Nat.le_of_eq hlevels)⟩

/-- **One more, and it is taken for a violation of the protocol**, though there was a buffer for
it. -/
theorem traceResult_unread :
    let w' := Service.served (Proxy.nested 1) (nest 63) freshWorld
    (w'.buffers.put (Utf8.encode (recordingText (w'.tracer 0)))).1.isSome ∧
      ∃ reason, (callWith (EntryPoint.invoke (Proxy.nested 1)) .traceResult
        { tracerHandle := 1 } w').1 = .error (.protocol "TracerResult" reason) := by
  intro w'
  obtain ⟨hfind, hkind, hroot, hbuffers⟩ := served_nest (Proxy.nested 1) 63
  have hput := isSome_put_tower hkind hroot (by decide)
  have hlevels : (w'.tracer 0).levels = 64 := by
    rw [Tracer.levels, hroot]
    exact levels_tower 63
  rw [← hbuffers] at hput
  have hread := @callWith_traceResult (Proxy.nested 1) _ _ _ hfind hkind hput
  exact ⟨hput, _, hread.trans (if_neg (by rw [hlevels]; decide))⟩

end Gateway

end EvmBridge
