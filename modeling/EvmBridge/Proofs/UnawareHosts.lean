import EvmBridge.Proofs.LostHandles

/-!
# Hosts that do not use a handle

A host does not notice that a handle is missing if its callbacks do not use it: they may call the
module, but name other handles, and open no object that could be given this one. The lemmas follow
an answer from the code of a callback to the proxy and back into the module. `Proxy.unaware_nested`
closes the circle, by induction on how deep callbacks nest.
-/

namespace EvmBridge

variable {upcall : Upcall} {H : World → Prop} {y : Category × Handle} {w w' : World}
  {α β : Type} {method : String} {args : Option String}

/-! ## Calls of the module -/

namespace Service

theorem respects_dispatch
    (hr : ∀ r, Request.ofCall method args = .ok r → Respects H y (run upcall r)) :
    Respects H y (dispatch upcall method args) := by
  refine .of_forall fun {w w'} hw => ?_
  cases hread : Request.ofCall method args with
  | error e =>
      rw [dispatch_unread hread, dispatch_unread hread]
      exact ⟨rfl, hw⟩
  | ok r =>
      rw [dispatch_eq hread, dispatch_eq hread]
      exact ⟨(hr r hread).answer hw, (hr r hread).alike hw⟩

variable (hu : Unaware upcall H y)
include hu

theorem respects_invoke (hr : ∀ r, Request.ofCall method args = .ok r → r.Avoids y) :
    Respects H y (invoke upcall method args) := by
  have hdispatch := respects_dispatch fun r hread => respects_run hu (hr r hread)
  refine Act.respects_bind (Act.respects_attempt hdispatch) fun o => ?_
  split
  · exact Act.respects_pure _
  · exact Act.respects_bind (Act.respects_change fun hw => hu.alike_log _ _ _ hw) fun _ =>
      Act.respects_pure _
  · exact Act.respects_throw _

end Service

theorem World.emitAll_withEngine (w : World) (es : List Event) (e : Engine) :
    (w.withEngine e).emitAll es = (w.emitAll es).withEngine e := by
  unfold World.emitAll
  induction es generalizing w with
  | nil => rfl
  | cons event es ih => exact ih (w.emit event)

section

variable (hu : Unaware upcall H y)
include hu

namespace EntryPoint

theorem respects_answer (text : String) : Respects H y (answer text) := by
  refine .of_forall fun {w w'} hw => ?_
  unfold answer
  rw [hw.buffers]
  exact ⟨rfl, hw.setBuffers hu _⟩

theorem respects_respond {method args : Option Bytes}
    (hr : ∀ m r, text? method = some m → Request.ofCall m (text? args) = .ok r → r.Avoids y) :
    Respects H y (respond upcall method args) := by
  refine .of_forall fun {w w'} hw => ?_
  unfold respond
  split
  · exact ⟨rfl, hw⟩
  · rename_i m hm
    split
    · exact ⟨rfl, hw⟩
    · obtain ⟨o, w₁, w₁', ho, ho', halike⟩ :=
        (Service.respects_invoke hu (hr m · hm)).exists_eq hw
      rw [ho, ho']
      cases o <;> exact ⟨rfl, halike⟩

theorem respects_invoke (method args : Option Bytes)
    (hr : ∀ m r, text? method = some m → Request.ofCall m (text? args) = .ok r → r.Avoids y) :
    Respects H y (invoke upcall method args) :=
  (respects_respond hu hr).bind fun text => respects_answer hu text

end EntryPoint

/-! ## What is noted and told -/

namespace World.Alike

variable (hw : Alike H y w w')
include hu hw

theorem emit (event : Event) : Alike H y (w.emit event) (w'.emit event) :=
  hw.elsewhere hu (f := (·.emit event)) rfl fun _ => rfl

theorem emitAll (es : List Event) : Alike H y (w.emitAll es) (w'.emitAll es) := by
  refine hw.elsewhere hu (f := (·.emitAll es)) ?_ fun e => w.emitAll_withEngine es e
  obtain ⟨journal, hjournal⟩ := w.emitAll_eq es
  rw [hjournal]
  rfl

theorem note (id : CallbackId) (n : Note) : Alike H y (w.note id n) (w'.note id n) :=
  hw.elsewhere hu (f := (·.note id n)) rfl fun _ => rfl

theorem setCallbacks {callbacks : List Callback}
    (haction : ({ w with callbacks } : World).action = w.action) :
    Alike H y { w with callbacks } { w' with callbacks } :=
  hw.elsewhere hu (f := ({ · with callbacks })) haction fun _ => rfl

end World.Alike

/-! ## The gateway -/

namespace Gateway

theorem respects_receive (id? : Option BufferId) : Respects H y (receive id?) := by
  refine .of_forall fun {w w'} hw => ?_
  unfold receive
  cases id? with
  | none => exact ⟨rfl, hw⟩
  | some id =>
      dsimp only
      rw [hw.buffers]
      exact ⟨rfl, hw.setBuffers hu _⟩

/-- The entry point reads the texts that the gateway wrote. -/
theorem respects_invoke {ρ : Type} (c : Codec ρ) {args : Option Json}
    (hr : ∀ r, Request.ofCall method (args.map Json.render) = .ok r → r.Avoids y) :
    Respects H y (invoke (EntryPoint.invoke upcall) c method args) := by
  refine .of_forall fun {w w'} hw => ?_
  unfold invoke exchange
  split
  · exact ⟨rfl, hw⟩
  · rename_i hmethod
    split
    · exact ⟨rfl, hw⟩
    · have hcrosses : crosses method := by simpa using hmethod
      have hentry := EntryPoint.respects_invoke hu (some (Utf8.encode method))
        ((args.map Json.render).map Utf8.encode) fun _ _ => read_written hcrosses hr
      -- the call is told, made and read, and its outcome is told
      have hexchange := ((hentry.bind fun id? => respects_receive hu id?).after fun hw =>
        hw.emit hu { severity := .trace, message := "invoke", fields :=
          [("method", .str method), ("args", .str ((args.map Json.render).getD ""))] }).bind
        fun answer => .of_change (interpret c method ((args.map Json.render).getD "") answer)
          fun hw => hw.emitAll hu (outcomeEvents
            (interpret c method ((args.map Json.render).getD "") answer))
      exact ⟨hexchange.answer hw, hexchange.alike hw⟩

end Gateway

/-! ## Callbacks -/

omit hu in
theorem Callback.respects_finish {answer : α → World → Option String × World}
    (hanswer : ∀ a, Respects H y (answer a)) {f : World → Except String α × World}
    (hf : Respects H y f) : Respects H y fun w => Callback.finish answer (f w) := by
  refine .of_forall fun {w w'} hw => ?_
  obtain ⟨o, w₁, w₁', ho, ho', halike⟩ := hf.exists_eq hw
  rw [ho, ho']
  cases o with
  | error message => exact ⟨rfl, halike⟩
  | ok a =>
      obtain ⟨s?, w₂, w₂', hs, hs', halike'⟩ := (hanswer a).exists_eq halike
      unfold Callback.finish
      dsimp only
      rw [hs, hs']
      exact ⟨rfl, halike'⟩

theorem Behaviour.respects_run {b : Behaviour α} (hb : b.Makes (·.Avoids y)) (id : CallbackId) :
    Respects H y (b.run upcall id) := by
  induction b with
  | answer a => exact .of_change _ fun hw => hw
  | crash message => exact .of_change _ fun hw => hw
  | call method args next ih =>
      refine .of_forall fun {w w'} hw => ?_
      obtain ⟨o, w₁, w₁', ho, ho', halike⟩ := (Service.respects_invoke hu hb.1).exists_eq hw
      unfold Behaviour.run
      rw [ho, ho']
      cases o with
      | error fault => exact ⟨rfl, halike⟩
      | ok envelope =>
          have hnext := ih envelope (hb.2 envelope)
          exact ⟨hnext.answer halike, hnext.alike halike⟩
  | request method args next ih =>
      exact (Gateway.respects_invoke hu .any hb.1).bind fun r => ih r (hb.2 r)
  | starve times next ih =>
      exact (ih hb).after fun hw => hw.elsewhere hu
        (f := fun w => { w with buffers := { w.buffers with failNext := times } }) rfl fun _ => rfl
  | note n next ih => exact (ih hb).after fun hw => hw.note hu id n
  | count next ih =>
      refine .of_forall fun {w w'} hw => ?_
      unfold Behaviour.run
      dsimp only
      rw [hw.callbacks]
      have hcounted := hw.setCallbacks hu (w.action_count id
        ((w.callbacks[id]?.getD default).calls + 1))
      have hnext := ih _ (hb (w.callbacks[id]?.getD default).calls)
      exact ⟨hnext.answer hcounted, hnext.alike hcounted⟩

namespace Callback

theorem respects_hashAnswer (args : String) (o : Except String Hash) :
    Respects H y (hashAnswer args o) := by
  cases o with
  | error e => exact .of_change _ fun hw => hw.emit hu _
  | ok hash => exact .of_change _ fun hw => hw

theorem respects_resultAnswer (o : Except String InvocationResult) :
    Respects H y (resultAnswer o) := by
  cases o with
  | error e => exact .of_change _ fun hw => hw.emit hu _
  | ok r => exact .of_change _ fun hw => hw

theorem respects_run {action : Action} (ha : action.Makes (·.Avoids y)) (id : CallbackId)
    (args : String) : Respects H y (run upcall id action args) := by
  have hnoted : ∀ {β : Type} {f : World → β × World}, Respects H y f →
      Respects H y fun w => f (w.note id (.called args)) :=
    fun hf => hf.after fun hw => hw.note hu id _
  unfold run
  cases action with
  | plain respond => exact hnoted (Behaviour.respects_run hu (ha args) id)
  | blockHash provide =>
      cases Codec.quantity.decode args with
      | error e =>
          exact hnoted (respects_finish (respects_hashAnswer hu args) (.of_change _ fun hw => hw))
      | ok number =>
          exact hnoted (respects_finish (respects_hashAnswer hu args)
            (Behaviour.respects_run hu (ha number) id))
  | external execute =>
      cases ExternalInvocation.codec.decode args with
      | error e =>
          exact hnoted (respects_finish (respects_resultAnswer hu) (.of_change _ fun hw => hw))
      | ok inv =>
          exact hnoted (respects_finish (respects_resultAnswer hu)
            (Behaviour.respects_run hu (ha inv) id))
  | log =>
      cases LogRecord.codec.decode args with
      | error e => exact .of_change _ fun hw => hw.emit hu _
      | ok r => exact .of_change _ fun hw => hw.emit hu _

end Callback

/-! ## The proxy -/

namespace Proxy

theorem respects_dispatch (hmakes : ∀ {w : World}, H w → w.Makes (·.Avoids y))
    (registry : Registry) (h : Handle) (args : String) :
    Respects H y (dispatch upcall registry h args) := by
  refine .of_forall fun {w w'} hw => ?_
  unfold dispatch
  split
  · exact ⟨rfl, hw.emit hu _⟩
  · rename_i id _
    have hrun : Respects H y (Callback.run upcall id (w.action id) args) :=
      Callback.respects_run hu (hmakes hw.kind id) id args
    obtain ⟨o, w₁, w₁', ho, ho', halike⟩ := hrun.exists_eq hw
    unfold World.action at ho ho'
    rw [hw.callbacks, ho, ho']
    cases o with
    | error message => exact ⟨rfl, halike.emit hu _⟩
    | ok answer => exact ⟨rfl, halike⟩

theorem respects_hand (text : String) : Respects H y (hand text) := by
  refine .of_forall fun {w w'} hw => ?_
  unfold hand
  dsimp only
  rw [hw.buffers]
  split
  · exact ⟨rfl, hw.setBuffers hu _⟩
  · exact ⟨rfl, (hw.setBuffers hu _).emit hu _⟩

/-- **The proxy does not notice** what callbacks do not use. -/
theorem respects_serve (hmakes : ∀ {w : World}, H w → w.Makes (·.Avoids y)) (h : Handle)
    (args? : Option Bytes) : Respects H y (serve upcall h args?) := by
  refine .of_forall fun {w w'} hw => ?_
  unfold serve
  split
  · exact ⟨rfl, hw.emit hu _⟩
  · rename_i args _
    obtain ⟨answer?, w₁, w₁', ha, ha', halike⟩ :=
      (respects_dispatch hu hmakes w.registry h args).exists_eq hw
    rw [hw.registry, ha, ha']
    cases answer? with
    | none => exact ⟨rfl, halike⟩
    | some answer =>
        exact ⟨(respects_hand hu answer).answer halike, (respects_hand hu answer).alike halike⟩

end Proxy

end

/-- Callbacks make such requests whatever else changes. -/
theorem World.Makes.congr {R : Request → Prop} (hw : w.Makes R) (h : w'.action = w.action) :
    w'.Makes R := by
  intro id
  rw [h]
  exact hw id

/-- A host that does not see the objects of the module does not see their handles either. -/
theorem Quiet.unaware (hq : Quiet upcall H) (y : Category × Handle) : Unaware upcall H y where
  host h args := by
    refine .of_forall fun {w w'} hw => ?_
    have hblind := hq.blind h args w'.engine hw.kind
    rw [← hw.same] at hblind
    rw [hblind]
    refine ⟨rfl, hq.keeps h args hw.kind, rfl, ?_⟩
    rw [hq.engine h args hw.kind]
    exact hw.sheds
  congr := hq.congr

/-- Where nobody answers, nobody notices anything. -/
theorem Proxy.unaware_nobody (y : Category × Handle) : Unaware (nested 0) (fun _ => True) y :=
  quiet_nobody.unaware y

/-- **The host does not notice that a handle is missing** if callbacks do not use it, with callbacks
within callbacks to any depth. -/
theorem Proxy.unaware_nested (y : Category × Handle) (depth : Nat) :
    Unaware (nested depth) (World.Makes (·.Avoids y)) y := by
  induction depth with
  | zero => exact ⟨fun _ _ => .of_change none fun hw => hw, .congr⟩
  | succ depth ih => exact ⟨respects_serve ih id, .congr⟩

/-- What does not call the host, or calls one that does not use the handle, runs as with a host that
does not notice. -/
theorem Service.exists_unaware (depth : Nat) (y : Category × Handle) (w : World) :
    ∃ upcall H, Unaware upcall H y ∧ H w ∧
      ∀ r : Request, (r.asksHost → w.Makes (·.Avoids y)) →
        run (Proxy.nested depth) r = run upcall r := by
  by_cases hw : w.Makes (·.Avoids y)
  · exact ⟨_, _, Proxy.unaware_nested y depth, hw, fun _ _ => rfl⟩
  · refine ⟨_, _, Proxy.unaware_nobody y, trivial, fun r hr => ?_⟩
    have hsilent : r.asksHost = false := by simpa using mt hr hw
    exact run_upcall hsilent _ _

end EvmBridge
