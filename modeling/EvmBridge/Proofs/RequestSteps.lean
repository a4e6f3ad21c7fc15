import EvmBridge.Host.Proxy
import EvmBridge.Proofs.Captures
import EvmBridge.Proofs.NulFree
import EvmBridge.Proofs.ObjectHandles
import EvmBridge.Proofs.ViewOp

/-!
# What a request does step by step

Whatever is asked of the module, and whatever its callbacks ask of it in turn, a few things happen
to the world: an object is opened or closed, an operation is made on a view, a view is committed or
has an invocation applied to it, a tracer is told something, a text passes through a buffer, and
something changes that has neither a handle nor a buffer. Requests, envelopes, the gateway,
callbacks and the proxy are followed once, here, and need not be opened again.

What survives may depend on what is asked. `Serves` says that a property survives what requests of
some kind do: from `Service.run_serves` to `Proxy.serve_serves`, each keeps it, if callbacks make no
other requests. `Invariant` is a property that survives all requests.
-/

namespace EvmBridge

/-- Both ends of an act satisfy the same. -/
def Always {α : Type} (J : World → Prop) (o : Except Fault α × World) : Prop :=
  Ends o (fun _ => J) fun _ => J

section

variable {α β : Type} {J : World → Prop} {w : World}

theorem always_ofExcept {o : Except EngineError α} {a : α → Act β} (hw : J w)
    (ha : ∀ r, o = .ok r → Always J (a r w)) : Always J ((Act.ofExcept o >>= a) w) :=
  Act.ends_ofExcept (fun _ _ => hw) ha

theorem always_map {a : Act α} {f : α → β} (ha : Always J (a w)) : Always J ((f <$> a) w) :=
  Act.ends_map.mpr ha

theorem always_findView {h : Handle} {a : Nat → Act β} (hw : J w) (ha : ∀ j, Always J (a j w)) :
    Always J ((Service.findView h >>= a) w) :=
  always_ofExcept hw fun j _ => ha j

theorem always_findStore {h : Handle} {a : Nat → Act β} (hw : J w) (ha : ∀ j, Always J (a j w)) :
    Always J ((Service.findStore h >>= a) w) :=
  always_ofExcept hw fun j _ => ha j

theorem always_findTracer {h : Handle} {a : Nat → Act β} (hw : J w) (ha : ∀ j, Always J (a j w)) :
    Always J ((Service.findTracer h >>= a) w) :=
  always_ofExcept hw fun j _ => ha j

end

/-- Events are written into the journal and nowhere else. -/
theorem World.emitAll_eq (w : World) (es : List Event) :
    ∃ journal, w.emitAll es = { w with journal } := by
  unfold World.emitAll
  induction es generalizing w with
  | nil => exact ⟨w.journal, rfl⟩
  | cons e es ih =>
      obtain ⟨journal, h⟩ := ih (w.emit e)
      exact ⟨journal, h⟩

/-- Taking an answer touches buffers only. -/
theorem engine_settle (o : Option BufferId × World) : (settle o).engine = o.2.engine := by
  rcases o with ⟨_ | id, w⟩ <;> rfl

theorem World.engine_passed (text : String) (w : World) :
    (settle (EntryPoint.answer text w)).engine = w.engine :=
  engine_settle _

/-- What a request tells which tracer. -/
def Request.capture? : Request → Option (Handle × Capture)
  | .txStart p => some (p.tracerHandle, .txStart p.gasLimit)
  | .txEnd p => some (p.tracerHandle, .txEnd p.restGas)
  | .frameStart p => some (p.tracerHandle, .start {
      opCode := if p.create then .create else .call
      sender := p.sender, target := p.target, input := p.input, gas := p.gas, value := p.value })
  | .frameEnd p => some (p.tracerHandle,
      .finish { output := p.output, gasUsed := p.gasUsed, error := p.err } p.duration)
  | .frameEnter p => some (p.tracerHandle, .enter {
      opCode := p.opCode, sender := p.sender, target := p.target, input := p.input, gas := p.gas,
      value := p.value })
  | .frameExit p => some (p.tracerHandle,
      .exit { output := p.output, gasUsed := p.gasUsed, error := p.err })
  | _ => none

/-! ## What callbacks ask for -/

/-- All requests that code of the host may make are of this kind. -/
def Behaviour.Makes {α : Type} (R : Request → Prop) : Behaviour α → Prop
  | answer _ | crash _ => True
  | call method args next =>
    (∀ r, Request.ofCall method args = .ok r → R r) ∧ ∀ envelope, (next envelope).Makes R
  | request method args next =>
    (∀ r, Request.ofCall method (args.map Json.render) = .ok r → R r) ∧
      ∀ answer, (next answer).Makes R
  | starve _ next => next.Makes R
  | note _ next => next.Makes R
  | count next => ∀ calls, (next calls).Makes R

def Action.Makes (R : Request → Prop) : Action → Prop
  | .plain respond => ∀ args, (respond args).Makes R
  | .blockHash provide => ∀ number, (provide number).Makes R
  | .external execute => ∀ inv, (execute inv).Makes R
  | .log => True

namespace World

/-- What a callback does, if there is one. -/
def action (w : World) (id : CallbackId) : Action := (w.callbacks[id]?.getD default).action

/-- All requests of callbacks are of this kind. -/
def Makes (R : Request → Prop) (w : World) : Prop := ∀ id, (w.action id).Makes R

/-- That a call is counted does not change what a callback does. -/
theorem action_count (w : World) (id : CallbackId) (n : Nat) :
    let c := w.callbacks[id]?.getD default
    ({ w with callbacks := w.callbacks.set id { c with calls := n } } : World).action =
      w.action := by
  intro c
  funext id'
  unfold action
  dsimp only
  rw [List.getElem?_set]
  by_cases h : id = id'
  · subst h
    by_cases hlt : id < w.callbacks.length
    · rw [if_pos rfl, if_pos hlt]
      rfl
    · rw [if_pos rfl, if_neg hlt, List.getElem?_eq_none (Nat.not_lt.mp hlt)]
  · rw [if_neg h]

theorem action_passed (text : String) (w : World) :
    (settle (EntryPoint.answer text w)).action = w.action := by
  unfold EntryPoint.answer
  rcases w.buffers.put (Utf8.encode text) with ⟨_ | id, buffers⟩ <;> rfl

end World

theorem Behaviour.makes_of_forall {α : Type} {R : Request → Prop} (hR : ∀ r, R r)
    (b : Behaviour α) : b.Makes R := by
  induction b with
  | answer | crash => exact trivial
  | call _ _ _ ih => exact ⟨fun r _ => hR r, ih⟩
  | request _ _ _ ih => exact ⟨fun r _ => hR r, ih⟩
  | starve _ _ ih => exact ih
  | note _ _ ih => exact ih
  | count _ ih => exact ih

theorem World.makes_of_forall {R : Request → Prop} (hR : ∀ r, R r) (w : World) : w.Makes R := by
  intro id
  cases w.action id with
  | plain => exact fun _ => Behaviour.makes_of_forall hR _
  | blockHash => exact fun _ => Behaviour.makes_of_forall hR _
  | external => exact fun _ => Behaviour.makes_of_forall hR _
  | log => exact trivial

/-! ## What survives -/

/-- An executor works for a request: its view and its tracer are those that the request names. -/
structure Executor.WorksFor (x : Executor) (p : EvmParams) (w : World) : Prop where
  view : w.engine.views.find p.handle = .ok x.view
  tracer : ∀ i, x.tracer = some i →
    ∃ h, p.context.tracer = some h ∧ w.engine.tracers.find h = .ok i

/-- A property that survives what happens while requests of some kind are served. -/
structure Serves (upcall : Upcall) (R : Request → Prop) (J : World → Prop) : Prop where
  /-- The journal does not count, nor how often callbacks were called. -/
  elsewhere : ∀ {w w' : World}, J w → w'.engine = w.engine → w'.files = w.files →
    w'.buffers = w.buffers → w'.action = w.action → J w'
  /-- A store on disk makes its directory, whether it can be opened or not. -/
  prepared : ∀ {p : LevelDbParams} {w : World}, R (.openDisk p) → J w →
    J { w with files := (Store.openAt w.files p.path p.preimages).2 }
  dumped : ∀ {p : DumpParams} {text : String} {files : Files} {w : World}, R (.dump p) → J w →
    w.files.write p.dumpFile text = .ok files → J { w with files }
  /-- A text goes into a new buffer, from which the other side takes it. -/
  passed : ∀ (text : String) {w : World}, J w → J (settle (EntryPoint.answer text w))
  /-- Creations of buffers are made to fail. -/
  starved : ∀ (times : Nat) {w : World}, J w →
    J { w with buffers := { w.buffers with failNext := times } }
  opened : ∀ {r : Request} {c : Category} {a : Json} {w w' : World}, R r → r.opens = some c → J w →
    Service.run upcall r w = (.ok a, w') → J w'
  closed : ∀ {r : Request} {x : Category × Handle} {a : Json} {w w' : World}, R r →
    r.closes = some x → J w → Service.run upcall r w = (.ok a, w') → J w'
  called : ∀ {r : Request} {h : Handle} {i : Nat} (op : ViewOp) {w : World}, R r →
    (.view, h) ∈ r.handles → w.engine.views.find h = .ok i → J w →
    J (w.setView i (op.run (w.view i)).2)
  /-- A view is finalized, and its store takes the state. -/
  committed : ∀ {p : HandleParams} {i : Nat} {w : World} {store : Store} {files : Files},
    R (.commit p) → w.engine.views.find p.handle = .ok i → J w →
    (w.store (w.view i).store).store w.files (w.view i).finalize.accounts.root
      (w.view i).finalize.accounts = .ok (store, files) →
    J ({ w.setView i (w.view i).finalize with files }.setStore (w.view i).store store)
  traced : ∀ {r : Request} {h : Handle} {c : Capture} {i : Nat} {w : World}, R r →
    r.capture? = some (h, c) → w.engine.tracers.find h = .ok i → J w →
    J (w.setTracer i ((w.tracer i).tell c))
  applied : ∀ {p : EvmParams} {x : Executor} {w : World}, R (.apply p) → x.upcall = upcall →
    x.WorksFor p w → J w → J (x.apply p.invocation w).2
  /-- The host is called, and its answer is taken. -/
  host : ∀ (h : Handle) (args : Option Bytes) {w : World}, J w → J (settle (upcall h args w))

/-- A property that survives whatever happens while a request is served. -/
structure Invariant (upcall : Upcall) (J : World → Prop) : Prop where
  /-- Files, callbacks and the journal do not count. -/
  elsewhere : ∀ {w w' : World}, J w → w'.engine = w.engine → w'.buffers = w.buffers → J w'
  /-- A text goes into a new buffer, from which the other side takes it. -/
  passed : ∀ (text : String) {w : World}, J w → J (settle (EntryPoint.answer text w))
  /-- Creations of buffers are made to fail. -/
  starved : ∀ (times : Nat) {w : World}, J w →
    J { w with buffers := { w.buffers with failNext := times } }
  opened : ∀ {r : Request} {c : Category} {a : Json} {w w' : World}, r.opens = some c → J w →
    Service.run upcall r w = (.ok a, w') → J w'
  closed : ∀ {r : Request} {x : Category × Handle} {a : Json} {w w' : World}, r.closes = some x →
    J w → Service.run upcall r w = (.ok a, w') → J w'
  called : ∀ (i : Nat) (op : ViewOp) {w : World}, J w → J (w.setView i (op.run (w.view i)).2)
  /-- A view is finalized, and its store takes the state. -/
  committed : ∀ (i : Nat) {w : World} {store : Store} {files : Files}, J w →
    (w.store (w.view i).store).store w.files (w.view i).finalize.accounts.root
      (w.view i).finalize.accounts = .ok (store, files) →
    J ({ w.setView i (w.view i).finalize with files }.setStore (w.view i).store store)
  traced : ∀ (i : Nat) (c : Capture) {w : World}, J w → J (w.setTracer i ((w.tracer i).tell c))
  applied : ∀ {x : Executor} (inv : Invocation) {w : World}, x.upcall = upcall → J w →
    J (x.apply inv w).2
  /-- The host is called, and its answer is taken. -/
  host : ∀ (h : Handle) (args : Option Bytes) {w : World}, J w → J (settle (upcall h args w))

/-- What survives all requests survives those of any kind. -/
theorem Invariant.serves {upcall : Upcall} {J : World → Prop} (hJ : Invariant upcall J) :
    Serves upcall (fun _ => True) J where
  elsewhere hw engine _ buffers _ := hJ.elsewhere hw engine buffers
  prepared _ hw := hJ.elsewhere hw rfl rfl
  dumped _ hw _ := hJ.elsewhere hw rfl rfl
  passed := hJ.passed
  starved := hJ.starved
  opened _ hr := hJ.opened hr
  closed _ hr := hJ.closed hr
  called op _ _ _ _ := hJ.called _ op
  committed _ _ hw hs := hJ.committed _ hw hs
  traced _ _ _ := hJ.traced _ _
  applied _ hx _ := hJ.applied _ hx
  host := hJ.host

variable {upcall : Upcall} {R : Request → Prop} {J : World → Prop} {w : World}

/-! ## Requests -/

namespace World

/-- Finalizing is seen at once, also where there is no view. -/
theorem view_setView_finalize (w : World) (i : Nat) :
    (w.setView i (w.view i).finalize).view i = (w.view i).finalize := by
  unfold view setView Pool.get Pool.set
  rcases hi : w.engine.views.objects[i]? with _ | v
  · rw [List.getElem?_set]
    have hlen : ¬ i < w.engine.views.objects.length := by
      have := List.getElem?_eq_none_iff.mp hi
      omega
    simp [hlen]
    rfl
  · have hlen := (List.getElem?_eq_some_iff.mp hi).1
    rw [List.getElem?_set_self hlen]
    rfl

end World

namespace Service

section

variable {r : Request} {h : Handle} (hJ : Serves upcall R J) (hr : R r)
include hJ hr

/-- An operation that cannot be refused. -/
theorem serves_op (hh : (.view, h) ∈ r.handles) {α : Type} {f : View → α × View} (op : ViewOp)
    (hop : ∀ v, (op.run v).2 = (f v).2) (hw : J w) : Always J (step h f w) := by
  refine always_ofExcept hw fun i hi => ?_
  have hcalled := hJ.called op hr hh hi hw
  rw [hop] at hcalled
  exact hcalled

/-- An operation that can be refused. -/
theorem serves_settle (hh : (.view, h) ∈ r.handles) {f : View → Except EngineError View}
    (op : ViewOp) (hop : ∀ v, op.run v = ViewOp.settle v (f v)) (hw : J w) :
    Always J (updateIf h f w) := by
  refine always_ofExcept hw fun i hi => always_ofExcept hw fun v' hv' => ?_
  have hcalled := hJ.called op hr hh hi hw
  rw [hop, hv'] at hcalled
  exact hcalled

theorem serves_capture (c : Capture) (hc : r.capture? = some (h, c)) (hw : J w) :
    Always J (updateTracer h (·.tell c) w) :=
  always_ofExcept hw fun _ hi => hJ.traced hr hc hi hw

theorem serves_opens {c : Category} (hc : r.opens = some c) (hw : J w) :
    Always J (run upcall r w) := by
  rcases hrun : run upcall r w with ⟨f | a, w'⟩
  · rcases (ends_opens hc).error hrun with rfl | ⟨p, rfl, rfl⟩
    · exact hw
    · exact hJ.prepared hr hw
  · exact hJ.opened hr hc hw hrun

theorem serves_closes {x : Category × Handle} (hx : r.closes = some x) (hw : J w) :
    Always J (run upcall r w) := by
  rcases hrun : run upcall r w with ⟨f | a, w'⟩
  · obtain ⟨_, rfl⟩ := (ends_closes hx).error hrun
    exact hw
  · exact hJ.closed hr hx hw hrun

end

theorem serves_snapshot (hJ : Serves upcall R J) {p : HandleParams} (hr : R (.snapshot p))
    (hw : J w) : Always J (snapshot p w) := by
  refine always_ofExcept hw fun i hi => Act.ends_bind.mpr (ends_snapshotAt.mpr ?_)
  have hcalled := hJ.called .snapshot hr List.mem_cons_self hi hw
  split
  · rename_i hnumbered
    rw [ViewOp.run_snapshot hnumbered] at hcalled
    exact hcalled
  · exact hw

theorem serves_commit (hJ : Serves upcall R J) {p : HandleParams} (hr : R (.commit p)) (hw : J w) :
    Always J (commit p w) := by
  refine always_ofExcept hw fun i hi => ?_
  -- the view is finalized before its store is asked, and stays so if the store refuses
  have hfinal := hJ.called .finalize hr List.mem_cons_self hi hw
  refine always_ofExcept hfinal fun kept hkept => ?_
  simp only [World.view_setView_finalize] at hkept ⊢
  exact hJ.committed hr hi hw hkept

/-- An apply either is refused at once or is left to its executor. -/
theorem always_apply {p : EvmParams} (hw : J w)
    (happlied : ∀ x : Executor, x.upcall = upcall → x.WorksFor p w →
      J (x.apply p.invocation w).2) : Always J (apply upcall p w) := by
  have happly : ∀ (i : Nat) (tracer : Option Nat),
      Executor.WorksFor ⟨upcall, i, tracer, p.context.withDefaults 0⟩ p w →
      Always J (Executor.apply ⟨upcall, i, tracer, p.context.withDefaults 0⟩ p.invocation w) :=
    fun _ _ hx => Ends.of_world (happlied _ rfl hx)
  refine always_ofExcept hw fun i hi => ?_
  cases ht : p.context.tracer with
  | none => exact happly i none ⟨hi, fun _ hj => absurd hj (by simp)⟩
  | some h =>
      refine Act.ends_bind.mpr (Act.ends_map.mpr (Act.ends_bind.mp ?_))
      refine always_ofExcept hw fun t hi' => happly i (some t) ⟨hi, fun _ hj => ?_⟩
      cases hj
      exact ⟨h, ht, hi'⟩

theorem serves_apply (hJ : Serves upcall R J) {p : EvmParams} (hr : R (.apply p)) (hw : J w) :
    Always J (apply upcall p w) :=
  always_apply hw fun _ hx hfor => hJ.applied hr hx hfor hw

/-- **A request keeps what survives requests of its kind.** -/
theorem run_serves (hJ : Serves upcall R J) {r : Request} (hr : R r) (hw : J w) :
    Always J (run upcall r w) := by
  cases r with
  | openMemory | openDisk p | openView p | createTracer options =>
      exact serves_opens hJ hr rfl hw
  | closeStore p | closeView p | removeTracer p => exact serves_closes hJ hr rfl hw
  | finalize p =>
      exact always_map (serves_op hJ hr List.mem_cons_self .finalize (fun _ => rfl) hw)
  | intermediateRoot p =>
      exact always_map (serves_op hJ hr List.mem_cons_self .intermediateRoot (fun _ => rfl) hw)
  | commit p => exact always_map (serves_commit hJ hr hw)
  | isEmpty p | isExternal p | balance p | nonce p | codeHash p | code p | storage p =>
      exact always_map (always_findView hw fun _ => hw)
  | addBalance p =>
      exact always_map (serves_op hJ hr List.mem_cons_self (.addBalance p.address p.amount)
        (fun _ => rfl) hw)
  | subBalance p =>
      exact always_map (serves_settle hJ hr List.mem_cons_self (.subBalance p.address p.amount)
        (fun _ => rfl) hw)
  | setBalance p =>
      exact always_map (serves_op hJ hr List.mem_cons_self (.setBalance p.address p.amount)
        (fun _ => rfl) hw)
  | setNonce p =>
      exact always_map (serves_op hJ hr List.mem_cons_self (.setNonce p.address p.nonce)
        (fun _ => rfl) hw)
  | setCode p =>
      exact always_map (serves_op hJ hr List.mem_cons_self (.setCode p.address p.code)
        (fun _ => rfl) hw)
  | setStorage p =>
      exact always_map (serves_settle hJ hr List.mem_cons_self
        (.setStorage p.address p.key p.value) (fun _ => rfl) hw)
  | snapshot p => exact always_map (serves_snapshot hJ hr hw)
  | revert p =>
      exact always_map (serves_settle hJ hr List.mem_cons_self (.revert p.revisionId)
        (fun _ => rfl) hw)
  | proof p => exact always_map (always_findView hw fun _ => always_ofExcept hw fun _ _ => hw)
  | dump p =>
      refine always_map (always_findView hw fun _ => always_ofExcept hw fun files hwrite => ?_)
      exact hJ.dumped hr hw (of_mapError_ok hwrite)
  | accessSetup p =>
      exact always_map (serves_op hJ hr List.mem_cons_self
        (.accessSetup p.address p.destination p.coinbase p.rules) (fun _ => rfl) hw)
  | accessAccount p =>
      exact always_map (serves_op hJ hr List.mem_cons_self (.accessAccount p.address)
        (fun _ => rfl) hw)
  | accessSlot p =>
      exact always_map (serves_op hJ hr List.mem_cons_self (.accessSlot p.address p.slot)
        (fun _ => rfl) hw)
  | apply p => exact always_map (serves_apply hJ hr hw)
  | traceResult p => exact always_map (always_findTracer hw fun _ => hw)
  | txStart p => exact always_map (serves_capture hJ hr (.txStart _) rfl hw)
  | txEnd p => exact always_map (serves_capture hJ hr (.txEnd _) rfl hw)
  | frameStart p =>
      exact always_map (always_findView hw fun _ => serves_capture hJ hr (.start _) rfl hw)
  | frameEnd p => exact always_map (serves_capture hJ hr (.finish _ _) rfl hw)
  | frameEnter p => exact always_map (serves_capture hJ hr (.enter _) rfl hw)
  | frameExit p => exact always_map (serves_capture hJ hr (.exit _) rfl hw)
  | invokeCallback p =>
      exact always_map (Ends.of_world
        (Outgoing.invoke_settles _ hw (hJ.host p.handle (some (Utf8.encode p.args)) hw)))

/-- What is told of a tracer does not depend on anything else. -/
theorem run_traceResult {h : Handle} {i : Nat} (hi : w.engine.tracers.find h = .ok i) :
    run upcall (.traceResult { tracerHandle := h }) w =
      (.ok (reply .traceResult { result := (w.tracer i).result }), w) := by
  have hfind : findTracer h w = (.ok i, w) := Act.ofExcept_ok hi
  exact Act.map_ok (Act.bind_ok hfind)

/-- A call that is understood makes its request. -/
theorem dispatch_eq {method : String} {args : Option String} {r : Request}
    (hread : Request.ofCall method args = .ok r) (upcall : Upcall) (w : World) :
    dispatch upcall method args w = run upcall r w :=
  Act.bind_ok (Act.ofExcept_ok hread)

/-- A call that is not understood does nothing. -/
theorem dispatch_unread {method : String} {args : Option String} {e : EngineError}
    (hread : Request.ofCall method args = .error e) (upcall : Upcall) (w : World) :
    dispatch upcall method args w = (.error (.error e), w) :=
  Act.bind_error (Act.ofExcept_error hread)

/-- An envelope is only written around what a request does, and a refusal is logged. -/
theorem invoke_serves (hJ : Serves upcall R J) {method : String} {args : Option String}
    (hr : ∀ r, Request.ofCall method args = .ok r → R r) (hw : J w) :
    Always J (invoke upcall method args w) := by
  have hdispatch : Always J (dispatch upcall method args w) :=
    always_ofExcept hw fun r hread => run_serves hJ (hr r hread) hw
  unfold invoke Always
  simp only [Act.ends_bind, Act.ends_attempt]
  refine hdispatch.imp (fun _ _ h => h) ?_
  intro f w' hw'
  cases f with
  | overflow => exact hw'
  | error e => exact Outgoing.log_settles hw' fun _ _ _ => hJ.host _ _ hw'

end Service

/-! ## The gateway and the host -/

namespace EntryPoint

theorem text?_encode {s : String} (h : '\x00' ∉ s.toList) :
    text? (some (Utf8.encode s)) = some s := by
  unfold text?
  rw [BufferError.readText_encode h]
  rfl

theorem respond_serves (hJ : Serves upcall R J) {method args : Option Bytes}
    (hr : ∀ m r, text? method = some m → Request.ofCall m (text? args) = .ok r → R r) (hw : J w) :
    J (respond upcall method args w).2 := by
  unfold respond
  split
  · exact hw
  · split
    · exact hw
    · rename_i m hm _
      have hs := Service.invoke_serves hJ (hr m · hm) hw
      split
      · rename_i he
        exact hs.ok he
      · rename_i he
        exact hs.error he

theorem invoke_serves (hJ : Serves upcall R J) (method args : Option Bytes)
    (hr : ∀ m r, text? method = some m → Request.ofCall m (text? args) = .ok r → R r) (hw : J w) :
    J (settle (invoke upcall method args w)) :=
  hJ.passed _ (respond_serves hJ hr hw)

end EntryPoint

namespace Gateway

theorem receive_world (id? : Option BufferId) (w : World) :
    (receive id? w).2 = settle (id?, w) := by
  cases id? <;> rfl

/-- The entry point reads the texts that the gateway wrote. -/
theorem read_written {method : String} {args : Option Json} (hmethod : crosses method)
    (hr : ∀ r, Request.ofCall method (args.map Json.render) = .ok r → R r) {m : String}
    {r : Request} (hm : EntryPoint.text? (some (Utf8.encode method)) = some m)
    (hread : Request.ofCall m (EntryPoint.text? ((args.map Json.render).map Utf8.encode)) = .ok r) :
    R r := by
  have hnul : '\x00' ∉ method.toList := by simpa [crosses] using hmethod
  have hargs : EntryPoint.text? ((args.map Json.render).map Utf8.encode) =
      args.map Json.render := by
    cases args with
    | none => rfl
    | some v => exact EntryPoint.text?_encode (Json.nul_render v)
  rw [EntryPoint.text?_encode hnul] at hm
  cases hm
  rw [hargs] at hread
  exact hr r hread

/-- **A call through the gateway keeps what survives its request**: the buffer of its answer is
released. -/
theorem invoke_serves {ρ : Type} (hJ : Serves upcall R J) (c : Codec ρ) {method : String}
    {args : Option Json} (hr : ∀ r, Request.ofCall method (args.map Json.render) = .ok r → R r)
    (hw : J w) : J (invoke (EntryPoint.invoke upcall) c method args w).2 := by
  unfold invoke exchange
  split
  · exact hw
  · rename_i hmethod
    split
    · exact hw
    · dsimp only
      generalize hw₁ : w.emit _ = w₁
      have hemitted : J w₁ := by rw [← hw₁]; exact hJ.elsewhere hw rfl rfl rfl rfl
      have hcrosses : crosses method := by simpa using hmethod
      have hentry := EntryPoint.invoke_serves hJ (some (Utf8.encode method))
        ((args.map Json.render).map Utf8.encode)
        (fun _ _ => read_written hcrosses hr) hemitted
      rw [← receive_world] at hentry
      obtain ⟨journal, hjournal⟩ := World.emitAll_eq (receive _ _).2 _
      rw [hjournal]
      exact hJ.elsewhere hentry rfl rfl rfl rfl

end Gateway

theorem Behaviour.run_serves {α : Type} (hJ : Serves upcall R J) (id : CallbackId)
    {b : Behaviour α} (hb : b.Makes R) (hw : J w) : J (b.run upcall id w).2 := by
  induction b generalizing w with
  | answer a => exact hw
  | crash message => exact hw
  | call method args next ih =>
      have hs := Service.invoke_serves hJ hb.1 hw
      unfold Behaviour.run
      split
      · rename_i he
        exact ih _ (hb.2 _) (hs.ok he)
      · rename_i he
        exact hs.error he
  | request method args next ih =>
      unfold Behaviour.run
      exact ih _ (hb.2 _) (Gateway.invoke_serves hJ .any hb.1 hw)
  | starve times next ih =>
      unfold Behaviour.run
      exact ih hb (hJ.starved times hw)
  | note n next ih =>
      unfold Behaviour.run
      exact ih hb (hJ.elsewhere hw rfl rfl rfl rfl)
  | count next ih =>
      unfold Behaviour.run
      exact ih _ (hb _) (hJ.elsewhere hw rfl rfl rfl (w.action_count id _))

namespace Callback

theorem finish_keeps {α : Type} {answer : α → World → Option String × World}
    (hanswer : ∀ a {w}, J w → J (answer a w).2)
    {o : Except String α × World} (hw : J o.2) : J (finish answer o).2 := by
  rcases o with ⟨_ | a, w⟩
  · exact hw
  · exact hanswer a hw

theorem hashAnswer_serves (hJ : Serves upcall R J) (args : String) (o : Except String Hash)
    (hw : J w) : J (hashAnswer args o w).2 := by
  cases o
  · exact hJ.elsewhere hw rfl rfl rfl rfl
  · exact hw

theorem resultAnswer_serves (hJ : Serves upcall R J) (o : Except String InvocationResult)
    (hw : J w) : J (resultAnswer o w).2 := by
  cases o
  · exact hJ.elsewhere hw rfl rfl rfl rfl
  · exact hw

theorem run_serves (hJ : Serves upcall R J) (id : CallbackId) {action : Action}
    (ha : action.Makes R) (args : String) (hw : J w) : J (run upcall id action args w).2 := by
  have hnote : J (w.note id (.called args)) := hJ.elsewhere hw rfl rfl rfl rfl
  have hhash : ∀ o {w}, J w → J (hashAnswer args o w).2 := fun o _ hw =>
    hashAnswer_serves hJ args o hw
  have hresult : ∀ o {w}, J w → J (resultAnswer o w).2 := fun o _ hw =>
    resultAnswer_serves hJ o hw
  unfold run
  cases action with
  | plain respond => exact Behaviour.run_serves hJ id (ha _) hnote
  | blockHash provide =>
      dsimp only
      split
      · exact finish_keeps hhash hnote
      · exact finish_keeps hhash (Behaviour.run_serves hJ id (ha _) hnote)
  | external execute =>
      dsimp only
      split
      · exact finish_keeps hresult hnote
      · exact finish_keeps hresult (Behaviour.run_serves hJ id (ha _) hnote)
  | log =>
      dsimp only
      split <;> exact hJ.elsewhere hw rfl rfl rfl rfl

end Callback

namespace Proxy

theorem dispatch_serves (hJ : Serves upcall R J) (hmakes : ∀ {w : World}, J w → w.Makes R)
    (registry : Registry) (h : Handle) (args : String) (hw : J w) :
    J (dispatch upcall registry h args w).2 := by
  unfold dispatch
  split
  · exact hJ.elsewhere hw rfl rfl rfl rfl
  · rename_i id _
    have hrun : J (Callback.run upcall id (w.callbacks[id]?.getD default).action args w).2 :=
      Callback.run_serves hJ id (hmakes hw id) args hw
    split <;> rename_i he <;> rw [he] at hrun
    · exact hrun
    · exact hJ.elsewhere hrun rfl rfl rfl rfl

/-- The buffer of an answer is released when it is taken. If there was none to be had, this is
told as an event. -/
theorem hand_serves (hJ : Serves upcall R J) (text : String) (hw : J w) :
    J (settle (hand text w)) := by
  have hpassed := hJ.passed text hw
  unfold hand
  unfold EntryPoint.answer at hpassed
  dsimp only at hpassed ⊢
  split <;> rename_i he <;> rw [he] at hpassed
  · exact hpassed
  · exact hJ.elsewhere hpassed rfl rfl rfl rfl

/-- **Serving a callback keeps what survives the requests that callbacks make.** -/
theorem serve_serves (hJ : Serves upcall R J) (hmakes : ∀ {w : World}, J w → w.Makes R)
    (h : Handle) (args? : Option Bytes) (hw : J w) : J (settle (serve upcall h args? w)) := by
  unfold serve
  split
  · exact hJ.elsewhere hw rfl rfl rfl rfl
  · rename_i args _
    have hdispatch := dispatch_serves hJ hmakes w.registry h args hw
    split <;> rename_i he <;> rw [he] at hdispatch
    · exact hdispatch
    · exact hand_serves hJ _ hdispatch

/-- **What each level of callbacks keeps if the next one does, all of them keep**, however deep they
nest. -/
theorem serves_nested (hmakes : ∀ {w : World}, J w → w.Makes R)
    (hJ : ∀ {upcall : Upcall}, (∀ (h : Handle) (args : Option Bytes) {w : World}, J w →
      J (settle (upcall h args w))) → Serves upcall R J) (depth : Nat) :
    Serves (nested depth) R J := by
  induction depth with
  | zero => exact hJ fun _ _ _ hw => hw
  | succ depth ih => exact hJ fun h args _ hw => serve_serves ih hmakes h args hw

end Proxy

/-! ## Invariants -/

namespace Service

theorem invariant_commit (hJ : Invariant upcall J) {p : HandleParams} (hw : J w) :
    Always J (commit p w) :=
  serves_commit hJ.serves trivial hw

/-- **A request keeps what is an invariant.** -/
theorem run_invariant (hJ : Invariant upcall J) (r : Request) (hw : J w) :
    Always J (run upcall r w) :=
  run_serves hJ.serves trivial hw

theorem invoke_invariant (hJ : Invariant upcall J) (method : String) (args : Option String)
    (hw : J w) : Always J (invoke upcall method args w) :=
  invoke_serves hJ.serves (fun _ _ => trivial) hw

end Service

/-- A call through the gateway keeps what is an invariant. -/
theorem Gateway.invoke_invariant {ρ : Type} (hJ : Invariant upcall J) (c : Codec ρ)
    (method : String) (args : Option Json) (hw : J w) :
    J (invoke (EntryPoint.invoke upcall) c method args w).2 :=
  invoke_serves hJ.serves c (fun _ _ => trivial) hw

theorem Proxy.serve_invariant (hJ : Invariant upcall J) (h : Handle) (args? : Option Bytes)
    (hw : J w) : J (settle (serve upcall h args? w)) :=
  serve_serves hJ.serves (fun _ => World.makes_of_forall (fun _ => trivial) _) h args? hw

end EvmBridge
