import EvmBridge.Proofs.CallbackAnswers
import EvmBridge.Proofs.CallbackFaults
import EvmBridge.Proofs.PayloadRoundTrip
import EvmBridge.Proofs.RequestSteps

/-!
# What a tracer records of an apply

An apply tells its tracer of a top frame, which starts before the invocation runs and ends after it
(`Executor.report`). In between, and once more at the end when the log is told, callbacks run, and
they may call the module. A tracer has only one stack, so a callback that has another top frame
start on the same tracer drops the one that is open, and the end of the apply finds nothing to end
(`Tracer.root_displaced`).

If no callback does this, the recording is that of the apply, whatever else callbacks do
(`Service.apply_recorded`). The argument is about requests: those that neither start nor end a top
frame of the tracer tell it of nested frames only, however deep they nest (`Overhears`).
-/

namespace EvmBridge

/-! ## The report of an apply -/

namespace Executor

/-- How the top frame of an apply ends. -/
def ending (inv : Invocation) (r : InvocationResult) : FrameEnd where
  output := r.returnData
  gasUsed := gasUsed inv.gas r.leftOverGas
  error := r.executionError

/-- What the tracer is told of an apply, and of what callbacks do meanwhile and afterwards. -/
def report (inv : Invocation) (r : InvocationResult) (during after : List Capture) : List Capture :=
  .txStart inv.gas :: .start (frame inv) ::
    (during ++ .finish (ending inv r) 0 :: .txEnd r.leftOverGas :: after)

end Executor

namespace Tracer

open Executor (report ending frame)

variable {t : Tracer} {c : Capture} {cs during after : List Capture} {inv inv' : Invocation}
  {r r' : InvocationResult}

/-- The frame of the apply is recorded, with how it ended, if no top frame starts or ends
meanwhile. -/
theorem root_report (t : Tracer) (inv : Invocation) (r : InvocationResult)
    (hduring : ∀ c ∈ during, c.isInner) (hafter : ∀ c ∈ after, c.isInner) :
    ∃ calls, (t.tellAll (report inv r during after)).root =
      some (.node (frame inv) (ending inv r) calls) := by
  have hopen := (open_start (t.tell (.txStart inv.gas)) (frame inv)).tellAll hduring
  obtain ⟨calls, hended⟩ := ended_of_within hopen.opened (ending inv r) 0
  refine ⟨calls, ?_⟩
  rw [report, tellAll_cons, tellAll_cons, tellAll_append, tellAll_cons, tellAll_cons,
    root_tellAll hafter, root_tell rfl]
  exact hended.root

/-- **A nested apply on the same tracer takes the place of the outer one.** Its frame is recorded,
with its own end. -/
theorem root_displaced (t : Tracer) {before nested rest : List Capture}
    (hduring : during = before ++ report inv' r' nested rest) (hnested : ∀ c ∈ nested, c.isInner)
    (hrest : ∀ c ∈ rest, c.opensNone) (hafter : ∀ c ∈ after, c.opensNone) :
    ∃ calls, (t.tellAll (report inv r during after)).root =
      some (.node (frame inv') (ending inv' r') calls) := by
  let late := rest ++ .finish (ending inv r) 0 :: .txEnd r.leftOverGas :: after
  have hlate : ∀ c ∈ .txEnd r'.leftOverGas :: late, c.opensNone := by
    intro c hc
    simp only [late, List.mem_cons, List.mem_append] at hc
    rcases hc with rfl | hc | rfl | rfl | hc
    · rfl
    · exact hrest c hc
    · rfl
    · rfl
    · exact hafter c hc
  have hsplit : report inv r during after =
      (.txStart inv.gas :: .start (frame inv) :: before ++ [.txStart inv'.gas]) ++
        (.start (frame inv') :: nested ++
          .finish (ending inv' r') 0 :: .txEnd r'.leftOverGas :: late) := by
    simp only [hduring, report, late, List.cons_append, List.append_assoc, List.nil_append]
  obtain ⟨calls, hended⟩ := ended_of_start
    (t.tellAll (.txStart inv.gas :: .start (frame inv) :: before ++ [.txStart inv'.gas]))
    (frame inv') (ending inv' r') 0 hnested hlate
  refine ⟨calls, ?_⟩
  rw [hsplit, tellAll_append]
  exact hended.root

end Tracer

/-! ## What a tracer overhears -/

/-- Callbacks make only requests of one kind. The tracer at a place was told only what it may be
told, and no other handle leads to it. -/
structure Overhears (R : Request → Prop) (P : Capture → Prop) (h : Handle) (i : Nat) (t : Tracer)
    (w : World) : Prop where
  makes : w.Makes R
  sole : ∀ h', w.engine.tracers.find h' = .ok i → h' = h
  told : ∃ cs, (∀ c ∈ cs, P c) ∧ w.Records i (t.tellAll cs)

/-- Requests of a kind tell a tracer only what it may be told. -/
structure Tells (R : Request → Prop) (P : Capture → Prop) (h : Handle) : Prop where
  capture : ∀ {r c}, R r → r.capture? = some (h, c) → P c
  /-- Of an apply it is told everything. -/
  apply : ∀ {p : EvmParams}, R (.apply p) → p.context.tracer = some h → ∀ c, P c

namespace Overhears

variable {R : Request → Prop} {P : Capture → Prop} {h : Handle} {i : Nat} {t : Tracer}
  {w w' : World} {upcall : Upcall} {x : Executor}

theorem start (hmakes : w.Makes R) (hsole : ∀ h', w.engine.tracers.find h' = .ok i → h' = h)
    (ht : w.Records i t) : Overhears R P h i t w :=
  ⟨hmakes, hsole, [], fun _ hc => absurd hc (by simp), ht⟩

theorem of_tracers (hw : Overhears R P h i t w) (htracers : w'.engine.tracers = w.engine.tracers)
    (haction : w'.action = w.action) : Overhears R P h i t w' := by
  obtain ⟨cs, hcs, ht⟩ := hw.told
  refine ⟨fun id => ?_, fun h' => ?_, cs, hcs, ht.of_tracers htracers⟩
  · rw [haction]
    exact hw.makes id
  · rw [htracers]
    exact hw.sole h'

theorem setTracer_ne (hw : Overhears R P h i t w) {j : Nat} (hj : j ≠ i) (u : Tracer) :
    Overhears R P h i t (w.setTracer j u) := by
  obtain ⟨cs, hcs, ht⟩ := hw.told
  exact ⟨hw.makes, hw.sole, cs, hcs, ht.setTracer_ne hj u⟩

theorem tell (hw : Overhears R P h i t w) (cs : List Capture) (hcs : ∀ c ∈ cs, P c) :
    Overhears R P h i t (w.setTracer i ((w.tracer i).tellAll cs)) := by
  obtain ⟨ds, hds, ht⟩ := hw.told
  refine ⟨hw.makes, hw.sole, ds ++ cs, fun c hc => ?_, ?_⟩
  · rcases List.mem_append.mp hc with hc | hc
    · exact hds c hc
    · exact hcs c hc
  · rw [ht.tracer, Tracer.tellAll_append]
    exact ht.setTracer _

/-- An executor tells its own tracer and no other. -/
theorem traced (hw : Overhears R P h i t w) (cs : List Capture)
    (hcs : x.tracer = some i → ∀ c ∈ cs, P c) :
    Overhears R P h i t (x.traced (·.tellAll cs) w) := by
  unfold Executor.traced
  cases hx : x.tracer with
  | none => exact hw
  | some j =>
      by_cases hj : j = i
      · subst hj
        exact hw.tell cs (hcs hx)
      · exact hw.setTracer_ne hj _

/-- While an executor runs, its tracer is told of nested frames. -/
theorem attends (hP : x.tracer = some i → ∀ s f, P (.enter s) ∧ P (.exit f))
    (hhost : ∀ (h' : Handle) (args : Option Bytes) {w : World}, Overhears R P h i t w →
      Overhears R P h i t (settle (x.upcall h' args w))) :
    x.Attends (Overhears R P h i t) where
  entered s _ hw := hw.traced [.enter s] fun hx c hc => by
    rw [List.mem_singleton.mp hc]
    exact (hP hx s {}).1
  exited f _ hw := hw.traced [.exit f] fun hx c hc => by
    rw [List.mem_singleton.mp hc]
    exact (hP hx (default : Frame).start f).2
  query c h _ _ hw := Outgoing.query_settles c hw (hhost h _ hw)
  log _ _ _ _ hw := Outgoing.log_settles hw fun _ _ _ => hhost _ _ hw

theorem setView (hw : Overhears R P h i t w) (j : Nat) (v : View) :
    Overhears R P h i t (w.setView j v) :=
  hw.of_tracers rfl rfl

/-- A nested apply tells the tracer of its frames, if it names it, and else nothing. -/
theorem apply (hP : x.tracer = some i → ∀ c, P c)
    (hhost : ∀ (h' : Handle) (args : Option Bytes) {w : World}, Overhears R P h i t w →
      Overhears R P h i t (settle (x.upcall h' args w))) (inv : Invocation)
    (hw : Overhears R P h i t w) : Overhears R P h i t (x.apply inv w).2 :=
  (attends (fun hx _ _ => ⟨hP hx _, hP hx _⟩) hhost).apply (fun v hw => hw.setView _ v)
    (fun gas s _ hw => hw.traced [.txStart gas, .start s] fun hx c _ => hP hx c)
    (fun f left _ hw => hw.traced [.finish f 0, .txEnd left] fun hx c _ => hP hx c) inv hw

/-- A new tracer comes behind all others. -/
theorem createTracer (hw : Overhears R P h i t w) (u : Tracer) :
    Overhears R P h i t
      { w with engine := { w.engine with tracers := (w.engine.tracers.add u).2 } } := by
  obtain ⟨cs, hcs, ht⟩ := hw.told
  have hlt := (List.getElem?_eq_some_iff.mp ht).1
  refine ⟨hw.makes, fun h' hfound => ?_, cs, hcs, ?_⟩
  · rw [Pool.find_add_eq] at hfound
    split at hfound
    · cases hfound
      exact absurd hlt (Nat.lt_irrefl _)
    · exact hw.sole h' hfound
  · show (w.engine.tracers.objects ++ [u])[i]? = _
    rw [List.getElem?_append_left hlt]
    exact ht

theorem opens {r : Request} {c : Category} (hr : r.opens = some c) (hw : Overhears R P h i t w) :
    Ends (Service.run upcall r w) (fun _ => Overhears R P h i t) fun _ _ => True := by
  cases r with
  | openMemory => exact Act.ends_map.mpr (hw.of_tracers rfl rfl)
  | openDisk p =>
      exact Act.ends_map.mpr (Act.ends_ofExcept (fun _ _ => trivial) fun _ _ =>
        hw.of_tracers rfl rfl)
  | openView p =>
      exact Act.ends_map.mpr (Act.ends_ofExcept (fun _ _ => trivial) fun _ _ =>
        Act.ends_ofExcept (fun _ _ => trivial) fun _ _ => hw.of_tracers rfl rfl)
  | createTracer options =>
      exact Act.ends_map.mpr (Act.ends_ofExcept (fun _ _ => trivial) fun u _ => hw.createTracer u)
  | _ => exact absurd hr (by simp [Request.opens])

theorem closes {r : Request} {y : Category × Handle} (hr : r.closes = some y)
    (hw : Overhears R P h i t w) :
    Ends (Service.run upcall r w) (fun _ => Overhears R P h i t) fun _ _ => True := by
  cases r with
  | closeStore p | closeView p =>
      exact Act.ends_map.mpr (Act.ends_ofExcept (fun _ _ => trivial) fun _ _ =>
        hw.of_tracers rfl rfl)
  | removeTracer p =>
      refine Act.ends_map.mpr (Act.ends_ofExcept (fun _ _ => trivial) fun tracers hc => ?_)
      obtain ⟨cs, hcs, ht⟩ := hw.told
      refine ⟨hw.makes, fun h' hfound => ?_, cs, hcs, ?_⟩
      · have hfound : tracers.find h' = .ok i := hfound
        rw [Pool.find_close_eq hc] at hfound
        split at hfound
        · exact absurd hfound (by simp)
        · exact hw.sole h' hfound
      · -- the tracer stays where it stands
        show tracers.objects[i]? = _
        rw [Pool.objects_close hc]
        exact ht
  | _ => exact absurd hr (by simp [Request.closes])

/-- **What requests of a kind tell, their callbacks tell as well.** -/
theorem serves (htells : Tells R P h) (t : Tracer)
    (hhost : ∀ (h' : Handle) (args : Option Bytes) {w : World}, Overhears R P h i t w →
      Overhears R P h i t (settle (upcall h' args w))) :
    Serves upcall R (Overhears R P h i t) where
  elsewhere hw engine _ _ haction := hw.of_tracers (by rw [engine]) haction
  prepared _ hw := hw.of_tracers rfl rfl
  dumped _ hw _ := hw.of_tracers rfl rfl
  passed text w hw := hw.of_tracers (by rw [World.engine_passed]) (World.action_passed text w)
  starved _ _ hw := hw.of_tracers rfl rfl
  opened _ hr hw hrun := (hw.opens hr).ok hrun
  closed _ hr hw hrun := (hw.closes hr).ok hrun
  called _ _ _ _ _ hw := hw.setView _ _
  committed _ _ hw _ := hw.of_tracers rfl rfl
  traced {r h' c j w} hr hc hj hw := by
    by_cases hi : j = i
    · subst hi
      obtain rfl := hw.sole h' hj
      exact hw.tell [c] fun d hd => List.mem_singleton.mp hd ▸ htells.capture hr hc
    · exact hw.setTracer_ne hi _
  applied {p x w} hr hx hfor hw := by
    subst hx
    refine hw.apply (fun htracer => ?_) hhost _
    obtain ⟨h', hp, hfound⟩ := hfor.tracer i htracer
    exact htells.apply hr (hw.sole h' hfound ▸ hp)
  host h' args _ hw := hhost h' args hw

/-- However deep callbacks nest. -/
theorem serves_nested (htells : Tells R P h) (i : Nat) (t : Tracer) (depth : Nat) :
    Serves (Proxy.nested depth) R (Overhears R P h i t) :=
  Proxy.serves_nested (·.makes) (fun hhost => serves htells t hhost) depth

end Overhears

/-! ## The recording of an apply -/

/-- A request starts or ends a top frame of a tracer. -/
def Request.Tops (h : Handle) : Request → Prop
  | .apply p => p.context.tracer = some h
  | .frameStart p => p.tracerHandle = h
  | .frameEnd p => p.tracerHandle = h
  | _ => False

/-- Other requests tell the tracer of nested frames at most. -/
theorem Request.tells_inner (h : Handle) : Tells (¬ ·.Tops h) (·.isInner) h where
  capture {r c} hr hc := by
    cases r with
    | txStart | txEnd | frameEnter | frameExit =>
        cases hc
        rfl
    | frameStart p | frameEnd p =>
        cases hc
        exact absurd rfl hr
    | _ => exact absurd hc (by simp [Request.capture?])
  apply hr hp := absurd hp hr

theorem Executor.traced_eq {x : Executor} {i : Nat} (hx : x.tracer = some i) (f : Tracer → Tracer)
    (w : World) : x.traced f w = w.setTracer i (f (w.tracer i)) := by
  rw [traced, hx]

/-- **A tracer is told of an apply from its start to its end**, and in between of what callbacks
do. -/
theorem Executor.apply_reports {R : Request → Prop} {P : Capture → Prop} {h : Handle} {i : Nat}
    {t : Tracer} {w : World} {x : Executor} (hx : x.tracer = some i)
    (hserves : ∀ t, Serves x.upcall R (Overhears R P h i t))
    (hP : ∀ s f, P (.enter s) ∧ P (.exit f)) (hw : Overhears R P h i t w) (ht : w.Records i t)
    (inv : Invocation) :
    Ends (x.apply inv w)
      (fun r w' => ∃ during after, (∀ c ∈ during, P c) ∧ (∀ c ∈ after, P c) ∧
        w'.Records i (t.tellAll (report (fueled inv) r during after)))
      fun _ _ => True := by
  have hattends : ∀ t, x.Attends (Overhears R P h i t) := fun t =>
    Overhears.attends (fun _ => hP) fun h' args _ hw => (hserves t).host h' args hw
  -- what was told before does not matter
  have hrestart : ∀ {t u : Tracer} {w : World}, Overhears R P h i t w → w.Records i u →
      ∀ cs, Overhears R P h i (u.tellAll cs) (x.traced (·.tellAll cs) w) := by
    intro t u w hw hu cs
    rw [traced_eq hx, hu.tracer]
    exact .start hw.makes hw.sole (hu.setTracer _)
  refine ends_apply ?_
  have hstarted := hrestart hw ht [.txStart (fueled inv).gas, .start (frame (fueled inv))]
  refine ((hattends _).run (fun v hw => hw.setView _ v) (fueled inv) hstarted).imp ?_
    fun _ _ _ => trivial
  intro r w₁ hw₁
  obtain ⟨during, hduring, ht₁⟩ := hw₁.told
  have hended := hrestart hw₁ ht₁ [.finish (ending (fueled inv) r) 0, .txEnd r.leftOverGas]
  obtain ⟨after, hafter, ht₂⟩ := ((hattends _).log .debug "applied invocation"
    (appliedFields (fueled inv) r) hended).told
  refine ⟨during, after, hduring, hafter, ?_⟩
  rw [report, Tracer.tellAll_cons, Tracer.tellAll_cons, Tracer.tellAll_append,
    Tracer.tellAll_cons, Tracer.tellAll_cons]
  exact ht₂

namespace Service

variable {p : EvmParams} {h : Handle} {i j : Nat} {w w' : World} {r : InvocationResult}
  {upcall : Upcall}

/-- A recorded apply is one of the executor. -/
theorem apply_eq (hi : w.engine.views.find p.handle = .ok i) (hp : p.context.tracer = some h)
    (hj : w.engine.tracers.find h = .ok j) :
    apply upcall p w =
      Executor.apply ⟨upcall, i, some j, p.context.withDefaults 0⟩ p.invocation w := by
  have hview : findView p.handle w = (.ok i, w) := Act.ofExcept_ok hi
  have htracer : findTracer h w = (.ok j, w) := Act.ofExcept_ok hj
  unfold apply
  rw [Act.bind_ok hview, hp]
  exact Act.bind_ok (Act.map_ok htracer)

/-- **An apply is recorded as what it was, if no callback has another top frame of its tracer start
or end.** Callbacks may do anything else, and callbacks may call callbacks to any depth. Whichever
handle leads to the tracer afterwards, the result that it names is the frame of the invocation, with
the output, the gas and the error of its result. -/
theorem apply_recorded (depth : Nat) (hw : w.engine.Distinct)
    (hi : w.engine.tracers.find h = .ok i) (hkind : (w.tracer i).kind = .call)
    (hp : p.context.tracer = some h)
    (hquiet : w.Makes (¬ ·.Tops h)) (hdone : apply (Proxy.nested depth) p w = (.ok r, w')) :
    let inv := Executor.fueled p.invocation
    ∃ calls, ∀ h', w'.engine.tracers.find h' = .ok i →
      run (Proxy.nested depth) (.traceResult { tracerHandle := h' }) w' =
        (.ok (reply .traceResult { result :=
          (Frame.node (Executor.frame inv) (Executor.ending inv r) calls).toJson }), w') := by
  intro inv
  have ht : w.Records i (w.tracer i) := World.records_of_call hkind
  have hsole : ∀ h', w.engine.tracers.find h' = .ok i → h' = h := fun h' hi' =>
    hw.sole (c := .tracer) hi hi'
  have hserves := fun t => Overhears.serves_nested (Request.tells_inner h) i t depth
  have htold : Ends (apply (Proxy.nested depth) p w)
      (fun r w' => ∃ during after, (∀ c ∈ during, c.isInner) ∧ (∀ c ∈ after, c.isInner) ∧
        w'.Records i ((w.tracer i).tellAll (Executor.report inv r during after)))
      fun _ _ => True := by
    refine Act.ends_ofExcept (fun _ _ => trivial) fun j hj => ?_
    rw [hp]
    refine Act.ends_bind.mpr (Act.ends_map.mpr (Act.ends_bind.mp ?_))
    refine Act.ends_ofExcept (fun _ _ => trivial) fun k hk => ?_
    obtain rfl : i = k := Except.ok.inj (hi.symm.trans hk)
    exact Executor.apply_reports rfl hserves (fun _ _ => ⟨rfl, rfl⟩)
      (.start hquiet hsole ht) ht p.invocation
  obtain ⟨during, after, hduring, hafter, ht'⟩ := htold.ok hdone
  obtain ⟨calls, hroot⟩ :=
    (w.tracer i).root_report inv r hduring hafter
  refine ⟨calls, fun h' hfound => ?_⟩
  have hkind' : (w'.tracer i).kind = .call := by rw [ht'.tracer, Tracer.kind_tellAll, hkind]
  have hresult : (w'.tracer i).result =
      (Frame.node (Executor.frame inv) (Executor.ending inv r) calls).toJson := by
    rw [Tracer.result, hkind', ht'.tracer, hroot]
  rw [← hresult]
  exact run_traceResult hfound

end Service

/-! ## A contract that calls back -/

/-- Code of the host goes on with the answer to what it asked for. -/
theorem Behaviour.run_call {α : Type} {upcall : Upcall} {id : CallbackId} {method : String}
    {args : Option String} {next : String → Behaviour α} {r : Request} {a : Json} {w w' : World}
    (hread : Request.ofCall method args = .ok r) (hrun : Service.run upcall r w = (.ok a, w')) :
    (call method args next).run upcall id w =
      (next (Envelope.success a).encode).run upcall id w' := by
  have hdispatch : Service.dispatch upcall method args w = (.ok a, w') := by
    unfold Service.dispatch
    rw [Act.bind_ok (Act.ofExcept_ok hread)]
    exact hrun
  have hinvoke : Service.invoke upcall method args w =
      (.ok (Envelope.success a).encode, w') := by
    unfold Service.invoke
    rw [Act.bind_ok (Act.attempt_eq hdispatch)]
    rfl
  rw [Behaviour.run, hinvoke]

namespace Executor

variable {x : Executor} {w : World} {v : View} {inv : Invocation} {callee : Address} {h : Handle}
  {Q : InvocationResult → World → Prop} {E : Fault → World → Prop}

/-- The frame of a call that a callback executes. -/
def contractFrame (inv : Invocation) (callee : Address) : FrameStart where
  opCode := if inv.readOnly then .staticCall else .call
  sender := inv.caller
  target := callee
  input := inv.input
  gas := inv.gas - UInt64.ofNat (cost inv)
  value := inv.value

/-- The world in which a callback is asked to execute the call of an apply. -/
def asking (x : Executor) (inv : Invocation) (callee : Address) (v v' : View) (w : World) :
    World :=
  x.traced (·.enter (contractFrame inv callee))
    (((x.traced (fun t => (t.txStart inv.gas).start (frame inv)) w).setView
      x.view v.mark).setView x.view v')

/-- The world after the callback has executed it. -/
def answered (x : Executor) (inv : Invocation) (r : InvocationResult) (w : World) : World :=
  x.traced (fun t => (t.finish (ending inv r) 0).txEnd r.leftOverGas)
    (x.traced (·.exit {
      output := r.returnData
      gasUsed := gasUsed (inv.gas - UInt64.ofNat (cost inv)) r.leftOverGas
      error := r.executionError }) w)

/-- An apply whose call is executed by a callback, with success. -/
theorem ends_apply_asked (hv : w.Holds x.view v) (hl : Lands (fueled inv) v callee)
    (hroom : v.nextRevision < View.maxRevision)
    (hnonce : (v.nonce (fueled inv).caller).toNat + 1 < UInt64.size)
    (hdepth : x.context.initialDepth.toNat + 1 < UInt32.size)
    (hcontract : x.context.externalContracts.contains callee)
    (hcallback : x.context.externalCallback = some h)
    (hdone : ∀ v', (counted v.mark (fueled inv).caller).transfer (fueled inv).caller callee
        ((fueled inv).value.getD 0) = .ok v' →
      let q := Outgoing.query x.upcall InvocationResult.codec h
        (ExternalInvocation.codec.encode (handedOver x.context (fueled inv)))
        (x.asking (fueled inv) callee v v' w)
      let r := outcome ((fueled inv).gas - UInt64.ofNat (cost (fueled inv))) q.1
      r.isSuccess ∧ Q r (Outgoing.log x.upcall .debug "applied invocation"
        (appliedFields (fueled inv) r) (x.answered (fueled inv) r q.2))) :
    Ends (x.apply inv w) Q E := by
  have hstarted := hv.of_views (views_traced x
    (fun t => (t.txStart (fueled inv).gas).start (frame (fueled inv))) w)
  have hl' : Lands (fueled inv) v.mark callee := ⟨hl.callee, hl.paid, hl.allowed, hl.covered⟩
  refine ends_apply (ends_run hstarted.view ?_ ?_ (absurd hroom) fun _ _ _ => ?_)
  · exact fun hgas => absurd hl.paid (Nat.not_le.mpr hgas)
  · exact fun hreadOnly hvalue => absurd (hl.allowed hreadOnly) (Nat.ne_of_gt hvalue)
  unfold body
  rw [hl.callee]
  refine ends_call (hstarted.setView _).view ?_ (fun _ hr => absurd hr hl'.not_refused)
    fun v' _ ht => ?_
  · exact fun hfull => absurd hnonce (Nat.not_lt.mpr (Nat.le_of_eq hfull.symm))
  unfold answer
  rw [if_pos hcontract]
  unfold external
  rw [hcallback]
  simp only [Act.ends_bind, ends_nextDepth, ends_trace, ends_query, Act.ends_pure, if_pos hdepth,
    ← hl.callee]
  obtain ⟨hsuccess, hends⟩ := hdone v' ht
  exact (if_pos hsuccess).mpr hends

/-- What such an apply comes to, if nobody is told of the log. -/
theorem apply_of_answer (inv : Invocation) (a r : InvocationResult) (w₁ : World)
    (hv : w.Holds x.view v) (hl : Lands (fueled inv) v callee)
    (hroom : v.nextRevision < View.maxRevision)
    (hnonce : (v.nonce (fueled inv).caller).toNat + 1 < UInt64.size)
    (hdepth : x.context.initialDepth.toNat + 1 < UInt32.size)
    (hcontract : x.context.externalContracts.contains callee)
    (hcallback : x.context.externalCallback = some h)
    (hanswer : ∀ v', (counted v.mark (fueled inv).caller).transfer (fueled inv).caller callee
        ((fueled inv).value.getD 0) = .ok v' →
      ∃ buffers, Outgoing.query x.upcall InvocationResult.codec h
        (ExternalInvocation.codec.encode (handedOver x.context (fueled inv)))
        (x.asking (fueled inv) callee v v' w) = (.ok a, { w₁ with buffers }))
    (hr : outcome ((fueled inv).gas - UInt64.ofNat (cost (fueled inv))) (.ok a) = r)
    (hsuccess : r.isSuccess) (hsink : w₁.sink = none) :
    ∃ w', x.apply inv w = (.ok r, w') ∧
      w'.engine = (x.answered (fueled inv) r w₁).engine := by
  have hends : Ends (x.apply inv w)
      (fun r' w' => r' = r ∧ w'.engine = (x.answered (fueled inv) r w₁).engine)
      fun _ _ => False := by
    refine ends_apply_asked hv hl hroom hnonce hdepth hcontract hcallback fun v' ht => ?_
    obtain ⟨buffers, hquery⟩ := hanswer v' ht
    have hquiet : (x.answered (fueled inv) r { w₁ with buffers }).sink = none := by
      unfold answered traced
      cases x.tracer <;> exact hsink
    have hengine : (x.answered (fueled inv) r { w₁ with buffers }).engine =
        (x.answered (fueled inv) r w₁).engine := by
      unfold answered traced
      cases x.tracer <;> rfl
    dsimp only
    rw [hquery, hr]
    refine ⟨hsuccess, rfl, ?_⟩
    unfold Outgoing.log
    rw [hquiet]
    exact hengine
  rcases hx : x.apply inv w with ⟨f | r', w'⟩
  · exact (hends.error hx).elim
  · obtain ⟨rfl, hengine⟩ := hends.ok hx
    exact ⟨w', rfl, hengine⟩

end Executor

namespace Service

/-- A call of a contract that a callback executes. It is recorded. -/
def outerCall : EvmParams where
  handle := 1
  invocation := { caller := .zero, callee := some (.ofNat 20 1), gas := 22000 }
  context := { tracer := some 1, externalContracts := [.ofNat 20 1], externalCallback := some 1 }

/-- A call back, recorded by the same tracer or by none. -/
def innerCall (recorded : Bool) : EvmParams where
  handle := 1
  invocation := { caller := .ofNat 20 1, callee := some .zero, gas := 21000 }
  context := { tracer := if recorded then some 1 else none }

/-- The contract calls back, and returns nothing. -/
def callBack (recorded : Bool) (_ : ExternalInvocation) :
    Behaviour (Except String InvocationResult) :=
  .call "EvmApply" (some (EvmParams.codec.encode (innerCall recorded))) fun _ => .answer (.ok {})

/-- A view, a call tracer, and the contract. -/
def contractWorld (recorded : Bool) : World where
  engine :=
    { views :=
        { objects := [{ store := 0 }], handles := { current := 1, used := .ofList [(1, 0)] } }
      tracers :=
        { objects := [{ kind := .call }], handles := { current := 1, used := .ofList [(1, 0)] } } }
  connected := true
  registry := ⟨.ofList [(1, 0)]⟩
  callbacks := [{ label := 0, action := .external (callBack recorded) }]

theorem distinct_contractWorld (recorded : Bool) : (contractWorld recorded).engine.Distinct :=
  .of_nodup fun c => by cases c <;> cases recorded <;> decide +kernel

theorem ofCall_innerCall (recorded : Bool) :
    Request.ofCall "EvmApply" (some (EvmParams.codec.encode (innerCall recorded))) =
      .ok (.apply (innerCall recorded)) :=
  congrArg (Request.apply <$> ·) (Request.params_encode (m := .apply) EvmParams.roundTrips _)

/-- The executor of the outer call. -/
def contractExecutor : Executor := ⟨Proxy.nested 2, 0, some 0, outerCall.context.withDefaults 0⟩

/-- What the contract is asked. -/
def contractInvocation : ExternalInvocation :=
  Executor.handedOver contractExecutor.context outerCall.invocation

/-- The world in which the contract is asked. -/
def askingWorld (recorded : Bool) : World :=
  contractExecutor.asking outerCall.invocation (.ofNat 20 1) { store := 0 }
    (Executor.counted ({ store := 0 } : View).mark .zero) (contractWorld recorded)

/-- The world after the call back. -/
def calledWorld (recorded : Bool) : World :=
  (run (Proxy.nested 1) (.apply (innerCall recorded)) ((askingWorld recorded).note 0
    (.called (ExternalInvocation.codec.encode contractInvocation)))).2

/-- The contract is called, calls back, and its answer arrives. -/
theorem query_contract (recorded : Bool) :
    ∃ buffers, Outgoing.query (Proxy.nested 2) InvocationResult.codec 1
      (ExternalInvocation.codec.encode contractInvocation) (askingWorld recorded) =
        (.ok {}, { calledWorld recorded with buffers }) := by
  have hfail : ∀ recorded, (calledWorld recorded).buffers.failNext = 0 := by decide +kernel
  have hisOk : ∀ recorded, (run (Proxy.nested 1) (.apply (innerCall recorded))
      ((askingWorld recorded).note 0
        (.called (ExternalInvocation.codec.encode contractInvocation)))).1.isOk := by
    decide +kernel
  obtain ⟨a, hrun⟩ : ∃ a, run (Proxy.nested 1) (.apply (innerCall recorded))
      ((askingWorld recorded).note 0
        (.called (ExternalInvocation.codec.encode contractInvocation))) =
          (.ok a, calledWorld recorded) := by
    have hok := hisOk recorded
    unfold calledWorld
    generalize run (Proxy.nested 1) (.apply (innerCall recorded)) _ = o at hok ⊢
    rcases o with ⟨f | a, w'⟩
    · exact absurd hok (by simp [Except.isOk, Except.toBool])
    · exact ⟨a, rfl⟩
  have hcall : Callback.run (Proxy.nested 1) 0 ((askingWorld recorded).action 0)
      (ExternalInvocation.codec.encode contractInvocation) (askingWorld recorded) =
        (.ok (some (InvocationResult.codec.encode {})), calledWorld recorded) := by
    have haction : (askingWorld recorded).action 0 = .external (callBack recorded) := rfl
    rw [haction, Callback.run, ExternalInvocation.roundTrips.decode_encode]
    show Callback.finish Callback.resultAnswer
      ((callBack recorded contractInvocation).run _ _ _) = _
    rw [callBack, Behaviour.run_call (ofCall_innerCall recorded) hrun]
    rfl
  have hroom : (Utf8.encode (InvocationResult.codec.encode {})).length < Buffers.maxSize := by
    decide +kernel
  exact Outgoing.query_of_run rfl (Json.nul_render _) rfl hcall
    (Buffers.isSome_put (hfail recorded) hroom) (Json.nul_render _)
    (InvocationResult.roundTrips.decode_encode _)

/-- The world after the outer call, in all that has handles. -/
def doneWorld (recorded : Bool) : World :=
  contractExecutor.answered outerCall.invocation {} (calledWorld recorded)

theorem apply_outerCall (recorded : Bool) :
    ∃ w', apply (Proxy.nested 2) outerCall (contractWorld recorded) = (.ok {}, w') ∧
      w'.engine = (doneWorld recorded).engine := by
  have hl : Executor.Lands outerCall.invocation { store := 0 } (.ofNat 20 1) :=
    ⟨rfl, by decide, fun _ => rfl, Nat.zero_le _⟩
  have hcounted : ∀ {v'}, (Executor.counted ({ store := 0 } : View).mark .zero).transfer
      .zero (.ofNat 20 1) 0 = .ok v' →
        v' = Executor.counted ({ store := 0 } : View).mark .zero :=
    fun ht => (Except.ok.inj ht).symm
  have hsink : ∀ recorded, (calledWorld recorded).sink.isNone := by decide +kernel
  obtain ⟨w', happly, hengine⟩ := Executor.apply_of_answer (x := contractExecutor)
    (w := contractWorld recorded) (v := { store := 0 }) (h := 1) outerCall.invocation {} {}
    (calledWorld recorded) rfl hl (by decide) (by decide) (by decide) (by decide) rfl
    (fun v' ht => hcounted ht ▸ query_contract recorded) (by decide +kernel) (by decide)
    (Option.isNone_iff_eq_none.mp (hsink recorded))
  refine ⟨w', ?_, hengine⟩
  rw [apply_eq (i := 0) (j := 0) rfl rfl rfl]
  exact happly

/-- The outer call is recorded, if the contract does not have its call back recorded too. -/
theorem apply_recorded_contract :
    let w := contractWorld false
    w.engine.Distinct ∧ w.Makes (¬ ·.Tops 1) ∧
      ∃ w' calls, apply (Proxy.nested 2) outerCall w = (.ok {}, w') ∧
        run (Proxy.nested 2) (.traceResult { tracerHandle := 1 }) w' =
          (.ok (reply .traceResult { result :=
            (Frame.node (Executor.frame outerCall.invocation)
              (Executor.ending outerCall.invocation {}) calls).toJson }), w') := by
  intro w
  have hmakes : w.Makes (¬ ·.Tops 1) := by
    rintro (_ | id)
    · refine fun inv => ⟨fun r hr => ?_, fun _ => trivial⟩
      rw [ofCall_innerCall] at hr
      cases hr
      exact fun htops => absurd htops (by simp [Request.Tops, innerCall])
    · exact trivial
  obtain ⟨w', happly, hengine⟩ := apply_outerCall false
  obtain ⟨calls, hresult⟩ := apply_recorded (p := outerCall) (h := 1) (i := 0) 2
    (distinct_contractWorld false) rfl rfl rfl hmakes happly
  refine ⟨distinct_contractWorld false, hmakes, w', calls, happly, hresult 1 ?_⟩
  rw [hengine]
  decide +kernel

/-- **A contract that has its call back recorded too replaces the recording.** The outer call has
succeeded, and its result tells of the call back. -/
theorem apply_not_recorded :
    ∃ w' finish calls,
      apply (Proxy.nested 2) outerCall (contractWorld true) = (.ok {}, w') ∧
      run (Proxy.nested 2) (.traceResult { tracerHandle := 1 }) w' =
        (.ok (reply .traceResult { result :=
          (Frame.node (Executor.frame (innerCall true).invocation) finish calls).toJson }), w') ∧
      (innerCall true).invocation.caller ≠ outerCall.invocation.caller ∧
      (innerCall true).invocation.callee ≠ outerCall.invocation.callee := by
  obtain ⟨w', happly, hengine⟩ := apply_outerCall true
  have hfind : w'.engine.tracers.find 1 = .ok 0 := by
    rw [hengine]
    decide +kernel
  have htracer : w'.tracer 0 = (doneWorld true).tracer 0 := by
    rw [World.tracer, hengine]
    rfl
  have hstart : ((doneWorld true).tracer 0).root.map Frame.start =
      some (Executor.frame (innerCall true).invocation) := by decide +kernel
  have hkind : ((doneWorld true).tracer 0).kind = .call := by decide +kernel
  obtain ⟨⟨_, finish, calls⟩, hroot, rfl⟩ := Option.map_eq_some_iff.mp hstart
  refine ⟨w', finish, calls, happly, ?_, by decide, by decide⟩
  rw [run_traceResult hfind, htracer, Tracer.result, hroot, hkind]

end Service

end EvmBridge
