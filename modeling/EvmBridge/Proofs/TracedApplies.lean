import EvmBridge.Proofs.ApplyRecordings
import EvmBridge.Proofs.Footprints
import EvmBridge.Proofs.LeftOverGas

/-!
# Applies with and without a tracer

A tracer listens. With a host that keeps to itself, an apply that is traced comes to the same as one
that is not, in everything but the tracer (`Executor.apply_traced`). The argument runs both side by
side: each act of the traced executor comes to the same as that of the other one, and tells the
tracer something besides (`Echoes`).

What it tells is known exactly. There is one frame for the apply, which ends with the result. There
is one frame in it if the call reaches the callback that executes it (`Executor.Reaches`), which
ends with the result as well, and none if it does not get that far.
-/

namespace EvmBridge

/-! ## What the host does beside a tracer -/

theorem World.setTracer_eq {w w' : World} (h : w'.engine = w.engine) (i : Nat) (t : Tracer) :
    w'.setTracer i t = w'.withEngine (w.setTracer i t).engine := by
  unfold setTracer withEngine
  rw [h]

theorem World.setTracer_setTracer (w : World) (i : Nat) (t t' : Tracer) :
    (w.setTracer i t).setTracer i t' = w.setTracer i t' := by
  simp only [setTracer, Pool.set, List.set_set]

/-- A tracer that stands there already is put there to no effect. -/
theorem World.Records.setTracer_self {w : World} {i : Nat} {t : Tracer} (h : w.Records i t) :
    w.setTracer i t = w := by
  obtain ⟨hi, ht⟩ := List.getElem?_eq_some_iff.mp h
  have hset : w.engine.tracers.objects.set i t = w.engine.tracers.objects := by
    rw [← ht]
    exact List.set_getElem_self hi
  simp only [World.setTracer, Pool.set, hset]

namespace Quiet

variable {upcall : Upcall} {H : World → Prop} {w : World} {h : Handle} {args : String}

theorem ask_withEngine (hq : Quiet upcall H) (hw : H w) (h : Handle) (args : String) (e : Engine) :
    Outgoing.ask upcall h args (w.withEngine e) =
      ((Outgoing.ask upcall h args w).1, (Outgoing.ask upcall h args w).2.withEngine e) := by
  have hconnected : (w.withEngine e).connected = w.connected := rfl
  unfold Outgoing.ask
  rw [hconnected, hq.blind h _ e hw]
  split
  · rfl
  · split
    · rfl
    · rcases upcall h (some (Utf8.encode args)) w with ⟨_ | id, w'⟩
      · rfl
      · have hbuffers : (w'.withEngine e).buffers = w'.buffers := rfl
        dsimp only
        rw [hbuffers]
        cases Utf8.decode (w'.buffers.take id).1 <;> rfl

theorem invoke_withEngine (hq : Quiet upcall H) (hw : H w) (h : Handle) (args : String)
    (expectResult : Bool) (e : Engine) :
    Outgoing.invoke upcall h args expectResult (w.withEngine e) =
      ((Outgoing.invoke upcall h args expectResult w).1,
        (Outgoing.invoke upcall h args expectResult w).2.withEngine e) := by
  unfold Outgoing.invoke
  rw [hq.ask_withEngine hw]
  rcases Outgoing.ask upcall h args w with ⟨_ | _ | s, w'⟩
  · rfl
  · cases expectResult <;> rfl
  · cases expectResult <;> rfl

theorem query_withEngine {α : Type} (hq : Quiet upcall H) (hw : H w) (c : Codec α) (h : Handle)
    (args : String) (e : Engine) :
    Outgoing.query upcall c h args (w.withEngine e) =
      ((Outgoing.query upcall c h args w).1,
        (Outgoing.query upcall c h args w).2.withEngine e) := by
  unfold Outgoing.query
  rw [hq.invoke_withEngine hw]
  rcases Outgoing.invoke upcall h args true w with ⟨_ | _ | s, w'⟩ <;> rfl

theorem log_withEngine (hq : Quiet upcall H) (hw : H w) (level : Level) (msg : String)
    (fields : List (String × Json)) (e : Engine) :
    Outgoing.log upcall level msg fields (w.withEngine e) =
      (Outgoing.log upcall level msg fields w).withEngine e := by
  have hsink : (w.withEngine e).sink = w.sink := rfl
  have hconnected : (w.withEngine e).connected = w.connected := rfl
  unfold Outgoing.log
  rw [hsink, hconnected]
  cases w.sink with
  | none => rfl
  | some sink =>
      dsimp only
      split
      · rw [hq.invoke_withEngine hw]
      · rfl

theorem query_settled {α : Type} (hq : Quiet upcall H) (hw : H w) (c : Codec α) (h : Handle)
    (args : String) :
    (Outgoing.query upcall c h args w).2.engine = w.engine ∧
      H (Outgoing.query upcall c h args w).2 :=
  Outgoing.query_settles (J := fun w' => w'.engine = w.engine ∧ H w') c ⟨rfl, hw⟩
    (hq.settled _ _ hw)

theorem query_setTracer {α : Type} (hq : Quiet upcall H) (hw : H w) (c : Codec α) (h : Handle)
    (args : String) (i : Nat) (t : Tracer) :
    Outgoing.query upcall c h args (w.setTracer i t) =
      ((Outgoing.query upcall c h args w).1,
        (Outgoing.query upcall c h args w).2.setTracer i t) := by
  rw [World.setTracer_eq (hq.query_settled hw c h args).1]
  exact hq.query_withEngine hw c h args (w.setTracer i t).engine

theorem log_setTracer (hq : Quiet upcall H) (hw : H w) (level : Level) (msg : String)
    (fields : List (String × Json)) (i : Nat) (t : Tracer) :
    Outgoing.log upcall level msg fields (w.setTracer i t) =
      (Outgoing.log upcall level msg fields w).setTracer i t := by
  rw [World.setTracer_eq (hq.engine_log level msg fields hw)]
  exact hq.log_withEngine hw level msg fields (w.setTracer i t).engine

end Quiet

/-! ## Acts beside each other -/

/-- In this world, an act comes to the same as another one, and the tracer at a place is told
something besides. `T` says what that is if there is an answer. -/
def Echoes {α : Type} (i : Nat) (T : α → List Capture → Prop) (a a₀ : Act α) (w : World) : Prop :=
  ∀ t, ∃ cs, a (w.setTracer i t) = ((a₀ w).1, (a₀ w).2.setTracer i (t.tellAll cs)) ∧
    ∀ r, (a₀ w).1 = .ok r → T r cs

/-- The tracer is told nothing. -/
def Silent {α : Type} (_ : α) (cs : List Capture) : Prop := cs = []

namespace Echoes

variable {α β : Type} {i : Nat} {T : α → List Capture → Prop} {T' : β → List Capture → Prop}
  {a a₀ : Act α} {f f₀ : α → Act β} {w : World}

theorem pure {r : α} (h : T r []) : Echoes i T (Pure.pure r) (Pure.pure r) w := by
  refine fun t => ⟨[], rfl, fun r' hr => ?_⟩
  cases hr
  exact h

theorem throw (e : Fault) : Echoes i T (MonadExcept.throw e) (MonadExcept.throw e) w :=
  fun t => ⟨[], rfl, fun _ hr => by cases hr⟩

theorem bind {S : α → β → List Capture → Prop} (ha : Echoes i T a a₀ w)
    (hf : ∀ r w', a₀ w = (.ok r, w') → Echoes i (S r) (f r) (f₀ r) w')
    (hT : ∀ r cs r' ds, T r cs → S r r' ds → T' r' (cs ++ ds)) :
    Echoes i T' (a >>= f) (a₀ >>= f₀) w := by
  intro t
  obtain ⟨cs, hsame, htold⟩ := ha t
  rcases h₀ : a₀ w with ⟨e | r, w'⟩
  · rw [h₀] at hsame
    rw [Act.bind_error hsame, Act.bind_error h₀]
    exact ⟨cs, rfl, fun r hr => absurd hr (by simp)⟩
  · rw [h₀] at hsame htold
    rw [Act.bind_ok hsame, Act.bind_ok h₀]
    obtain ⟨ds, hsame', htold'⟩ := hf r w' h₀ (t.tellAll cs)
    refine ⟨cs ++ ds, ?_, fun r' hr' => hT r cs r' ds (htold r rfl) (htold' r' hr')⟩
    rw [hsame', Tracer.tellAll_append]

theorem imp {T' : α → List Capture → Prop} (ha : Echoes i T a a₀ w)
    (h : ∀ r cs, T r cs → T' r cs) : Echoes i T' a a₀ w := by
  intro t
  obtain ⟨cs, hsame, htold⟩ := ha t
  exact ⟨cs, hsame, fun r hr => h r cs (htold r hr)⟩

/-- Nothing is told at first. -/
theorem bind_silent (ha : Echoes i Silent a a₀ w)
    (hf : ∀ r w', a₀ w = (.ok r, w') → Echoes i T' (f r) (f₀ r) w') :
    Echoes i T' (a >>= f) (a₀ >>= f₀) w := by
  refine ha.bind hf fun r cs r' ds hcs hds => ?_
  obtain rfl : cs = [] := hcs
  exact hds

/-- It is known what is told at first. -/
theorem bind_told {cs : List Capture} (ha : Echoes i (fun _ ds => ds = cs) a a₀ w)
    (hf : ∀ r w', a₀ w = (.ok r, w') →
      Echoes i (fun r' ds => T' r' (cs ++ ds)) (f r) (f₀ r) w') :
    Echoes i T' (a >>= f) (a₀ >>= f₀) w := by
  refine ha.bind hf fun r cs' r' ds hcs hds => ?_
  obtain rfl : cs' = cs := hcs
  exact hds

theorem attempt (ha : Echoes i T a a₀ w) :
    Echoes i (fun o cs => ∀ r, o = .ok r → T r cs) (Act.attempt a) (Act.attempt a₀) w := by
  intro t
  obtain ⟨cs, hsame, htold⟩ := ha t
  refine ⟨cs, Act.attempt_eq hsame, fun o ho r hr => htold r ?_⟩
  rw [← hr]
  exact Except.ok.inj ho

end Echoes

namespace Executor

variable {x : Executor} {i : Nat} {w : World} {v : View} {inv : Invocation} {callee : Address}
  {value : Nat} {remaining : UInt64} {r : InvocationResult}

/-- The same without a tracer. -/
def untraced (x : Executor) : Executor := { x with tracer := none }

theorem look_eq (hv : w.Holds x.view v) : x.look w = (.ok v, w) := by
  rw [← hv.view]
  rfl

theorem of_snapshot_ok {id : Nat} {w' : World} (hv : w.Holds x.view v)
    (h : x.snapshot w = (.ok id, w')) :
    id = v.nextRevision ∧ w' = w.setView x.view v.mark := by
  rw [snapshot, snapshotAt_eq, hv.view] at h
  split at h <;> cases h
  exact ⟨rfl, rfl⟩

theorem of_nextNonce_ok {n m : UInt64} {w' : World} (h : nextNonce n w = (.ok m, w')) :
    m = n + 1 ∧ w' = w := by
  unfold nextNonce at h
  split at h <;> cases h
  exact ⟨rfl, rfl⟩

theorem of_nextDepth_ok {n m : UInt32} {w' : World} (h : nextDepth n w = (.ok m, w')) :
    m = n + 1 ∧ w' = w := by
  unfold nextDepth at h
  split at h <;> cases h
  exact ⟨rfl, rfl⟩

theorem echoes_look : Echoes i Silent x.look x.untraced.look w := fun _ => ⟨[], rfl, fun _ _ => rfl⟩

theorem echoes_put (v : View) : Echoes i Silent (x.put v) (x.untraced.put v) w :=
  fun _ => ⟨[], rfl, fun _ _ => rfl⟩

theorem echoes_nextNonce (n : UInt64) : Echoes i Silent (nextNonce n) (nextNonce n) w := by
  unfold nextNonce
  split
  · exact .pure rfl
  · exact .throw _

theorem echoes_nextDepth (n : UInt32) : Echoes i Silent (nextDepth n) (nextDepth n) w := by
  unfold nextDepth
  split
  · exact .pure rfl
  · exact .throw _

/-- The tracer is told, and nobody else. -/
theorem echoes_trace (hx : x.tracer = some i) (hi : i < w.engine.tracers.objects.length)
    (cs : List Capture) :
    Echoes i (fun _ ds => ds = cs) (x.trace (·.tellAll cs)) (x.untraced.trace (·.tellAll cs))
      w := by
  intro t
  have hrecords : (w.setTracer i t).Records i t := List.getElem?_set_self hi
  refine ⟨cs, ?_, fun _ _ => rfl⟩
  unfold trace
  rw [hx]
  show (Except.ok (), (w.setTracer i t).setTracer i (((w.setTracer i t).tracer i).tellAll cs)) = _
  rw [hrecords.tracer, World.setTracer_setTracer]
  rfl

theorem echoes_snapshot : Echoes i Silent x.snapshot x.untraced.snapshot w := by
  refine fun t => ⟨[], ?_, fun _ _ => rfl⟩
  have hview : (w.setTracer i t).view x.view = w.view x.view := rfl
  show snapshotAt x.view (w.setTracer i t) =
    ((snapshotAt x.view w).1, (snapshotAt x.view w).2.setTracer i t)
  rw [snapshotAt_eq, snapshotAt_eq, hview]
  split <;> rfl

theorem echoes_revert (id : Nat) : Echoes i Silent (x.revert id) (x.untraced.revert id) w := by
  refine echoes_look.bind_silent fun v w' _ => ?_
  cases v.revert id with
  | none => exact .throw _
  | some v' => exact echoes_put v'

theorem echoes_create :
    Echoes i Silent (x.create inv value remaining) (x.untraced.create inv value remaining) w := by
  unfold create
  refine echoes_look.bind_silent fun v w' _ => ?_
  dsimp only
  split
  · exact .pure rfl
  · refine (echoes_nextNonce _).bind_silent fun nonce w' _ => ?_
    cases View.transfer _ _ _ _ with
    | error reason => exact (echoes_put _).bind_silent fun _ _ _ => .pure rfl
    | ok v' => exact (echoes_put _).bind_silent fun _ _ _ => .pure rfl

/-! ## What the tracer is told -/

/-- How the frame ends that a callback executes. -/
def contractEnding (inv : Invocation) (r : InvocationResult) : FrameEnd where
  output := r.returnData
  gasUsed := gasUsed (inv.gas - UInt64.ofNat (cost inv)) r.leftOverGas
  error := r.executionError

/-- A call gets as far as the callback that executes it: it gets to the account that it is for, this
is an external contract, and there is a callback for these. -/
structure Reaches (x : Executor) (inv : Invocation) (v : View) (callee : Address) : Prop where
  lands : Lands inv v callee
  external : x.context.externalContracts.contains callee
  callback : x.context.externalCallback.isSome

/-- An invocation is for one account. -/
theorem Lands.unique {callee' : Address} (h : Lands inv v callee) (h' : Lands inv v callee') :
    callee = callee' :=
  Option.some.inj (h.callee.symm.trans h'.callee)

/-- A snapshot does not matter. -/
theorem reaches_mark : x.Reaches inv v.mark callee ↔ x.Reaches inv v callee :=
  ⟨fun ⟨hl, hexternal, hcallback⟩ =>
      ⟨⟨hl.callee, hl.paid, hl.allowed, hl.covered⟩, hexternal, hcallback⟩,
    fun ⟨hl, hexternal, hcallback⟩ =>
      ⟨⟨hl.callee, hl.paid, hl.allowed, hl.covered⟩, hexternal, hcallback⟩⟩

/-- What a tracer is told while an invocation runs. -/
structure Overheard (x : Executor) (inv : Invocation) (v : View) (r : InvocationResult)
    (cs : List Capture) : Prop where
  /-- Of a frame that ends with the result, if the call reaches the callback. -/
  reached : ∀ {callee}, x.Reaches inv v callee →
    cs = [.enter (contractFrame inv callee), .exit (contractEnding inv r)]
  /-- Of nothing, if it does not. -/
  missed : (∀ callee, ¬ x.Reaches inv v callee) → cs = []

theorem overheard_nothing (h : ∀ callee, ¬ x.Reaches inv v callee) : x.Overheard inv v r [] :=
  ⟨fun hr => absurd hr (h _), fun _ => rfl⟩

theorem overheard_frame (h : x.Reaches inv v callee) :
    x.Overheard inv v r [.enter (contractFrame inv callee), .exit (contractEnding inv r)] where
  reached {callee'} h' := by
    obtain rfl := h.lands.unique h'.lands
    rfl
  missed hmissed := absurd h (hmissed callee)

theorem overheard_of_mark {cs : List Capture} (h : x.Overheard inv v.mark r cs) :
    x.Overheard inv v r cs where
  reached hr := h.reached (reaches_mark.mpr hr)
  missed hmissed := h.missed fun callee hr => hmissed callee (reaches_mark.mp hr)

section

variable {H : World → Prop} (hq : Quiet x.upcall H) (hw : H w)
include hq hw

theorem settled_of_query {α : Type} {c : Codec α} {h : Handle} {args : String}
    {answer : Except EngineError α} {w' : World}
    (hanswer : x.untraced.query c h args w = (.ok answer, w')) : w'.engine = w.engine ∧ H w' := by
  have hsettled := hq.query_settled hw c h args
  have hw' : (Outgoing.query x.upcall c h args w).2 = w' := congrArg Prod.snd hanswer
  rwa [hw'] at hsettled

theorem echoes_query {α : Type} (c : Codec α) (h : Handle) (args : String) :
    Echoes i Silent (x.query c h args) (x.untraced.query c h args) w := by
  refine fun t => ⟨[], ?_, fun _ _ => rfl⟩
  unfold Executor.query
  dsimp only
  rw [hq.query_setTracer hw]
  rfl

theorem echoes_log (level : Level) (msg : String) (fields : List (String × Json)) :
    Echoes i Silent (x.log level msg fields) (x.untraced.log level msg fields) w := by
  refine fun t => ⟨[], ?_, fun _ _ => rfl⟩
  show (Except.ok (), Outgoing.log x.upcall level msg fields (w.setTracer i t)) = _
  rw [hq.log_setTracer hw]
  rfl

theorem echoes_blockHash (number : Nat) :
    Echoes i Silent (x.blockHash number) (x.untraced.blockHash number) w := by
  have hcontext : x.untraced.context = x.context := rfl
  unfold blockHash
  rw [hcontext]
  cases x.context.blockHashCallback with
  | none => exact .pure rfl
  | some h =>
      refine (echoes_query hq hw _ _ _).bind_silent fun answer w' hanswer => ?_
      cases answer with
      | ok hash => exact .pure rfl
      | error e =>
          exact (echoes_log hq (settled_of_query hq hw hanswer).2 _ _ _).bind_silent
            fun _ _ _ => .pure rfl

/-- The tracer is told of what a callback executes, before and after. -/
theorem echoes_external (hi : i < w.engine.tracers.objects.length) (hx : x.tracer = some i)
    (hl : Lands inv v callee) (hexternal : x.context.externalContracts.contains callee) :
    Echoes i (x.Overheard inv v) (x.external inv callee (inv.gas - UInt64.ofNat (cost inv)))
      (x.untraced.external inv callee (inv.gas - UInt64.ofNat (cost inv))) w := by
  have hcontext : x.untraced.context = x.context := rfl
  unfold external
  rw [hcontext]
  cases hcallback : x.context.externalCallback with
  | none =>
      refine .pure (overheard_nothing fun callee' hr => ?_)
      exact absurd hr.callback (by simp [hcallback])
  | some h =>
      have hr : x.Reaches inv v callee := ⟨hl, hexternal, by rw [hcallback]; rfl⟩
      refine (echoes_nextDepth _).bind_silent fun depth w' hdepth => ?_
      obtain ⟨rfl, rfl⟩ := of_nextDepth_ok hdepth
      refine (echoes_trace hx hi [.enter _]).bind_told fun _ w₁ hw₁ => ?_
      cases hw₁
      refine (echoes_query hq hw _ _ _).bind_silent fun answer w₂ hanswer => ?_
      have hi₂ : i < w₂.engine.tracers.objects.length := by
        rw [(settled_of_query hq hw hanswer).1]
        exact hi
      exact (echoes_trace hx hi₂ [.exit _]).bind_told fun _ _ _ => .pure (overheard_frame hr)

theorem echoes_answer (hi : i < w.engine.tracers.objects.length) (hx : x.tracer = some i)
    (hl : Lands inv v callee) :
    Echoes i (x.Overheard inv v) (x.answer inv callee (inv.gas - UInt64.ofNat (cost inv)))
      (x.untraced.answer inv callee (inv.gas - UInt64.ofNat (cost inv))) w := by
  have hcontext : x.untraced.context = x.context := rfl
  unfold answer
  rw [hcontext]
  split
  · rename_i hexternal
    exact echoes_external hq hw hi hx hl hexternal
  · rename_i hinternal
    have hmissed : ∀ callee', ¬ x.Reaches inv v callee' := by
      intro callee' hr
      obtain rfl := hl.unique hr.lands
      exact hinternal hr.external
    split
    · exact (echoes_blockHash hq hw _).bind_silent fun _ _ _ => .pure (overheard_nothing hmissed)
    · exact .pure (overheard_nothing hmissed)

theorem echoes_body (hi : i < w.engine.tracers.objects.length) (hx : x.tracer = some i)
    (hv : w.Holds x.view v) (hpaid : cost inv ≤ inv.gas.toNat)
    (hallowed : inv.readOnly → inv.value.getD 0 = 0) :
    Echoes i (x.Overheard inv v)
      (x.body inv (inv.value.getD 0) (inv.gas - UInt64.ofNat (cost inv)))
      (x.untraced.body inv (inv.value.getD 0) (inv.gas - UInt64.ofNat (cost inv))) w := by
  unfold body
  cases hcallee : inv.callee with
  | none =>
      refine echoes_create.imp fun r cs hcs => ?_
      obtain rfl : cs = [] := hcs
      refine overheard_nothing fun callee hr => ?_
      exact absurd (hcallee.symm.trans hr.lands.callee) (by simp)
  | some callee =>
      dsimp only
      unfold call
      refine echoes_look.bind_silent fun v' w' hlook => ?_
      cases (look_eq hv).symm.trans hlook
      refine (echoes_nextNonce _).bind_silent fun nonce w' hnonce => ?_
      obtain ⟨rfl, rfl⟩ := of_nextNonce_ok hnonce
      dsimp only
      cases ht : View.transfer _ _ _ _ with
      | error reason =>
          have hmissed : ∀ callee', ¬ x.Reaches inv v callee' := by
            intro callee' hr
            obtain rfl : callee = callee' := Option.some.inj (hcallee.symm.trans hr.lands.callee)
            exact hr.lands.not_refused ht
          exact (echoes_put _).bind_silent fun _ _ _ => .pure (overheard_nothing hmissed)
      | ok v' =>
          refine (echoes_put v').bind_silent fun _ w' hput => ?_
          cases hput
          have hcovered : inv.value.getD 0 ≤ (counted v inv.caller).balance inv.caller :=
            (View.transferred ht).covered
          rw [View.balance_eq, accountAt_counted, ← View.balance_eq] at hcovered
          exact echoes_answer hq (hq.congr hw rfl) hi hx ⟨hcallee, hpaid, hallowed, hcovered⟩

theorem echoes_run (hi : i < w.engine.tracers.objects.length) (hx : x.tracer = some i)
    (hv : w.Holds x.view v) :
    Echoes i (x.Overheard inv v) (x.run inv) (x.untraced.run inv) w := by
  unfold run
  split
  · rename_i hgas
    exact .pure (overheard_nothing fun _ hr => absurd hr.lands.paid (Nat.not_le.mpr hgas))
  · rename_i hgas
    dsimp only
    split
    · rename_i hwrite
      rw [Bool.and_eq_true, decide_eq_true_eq] at hwrite
      refine .pure (overheard_nothing fun _ hr => ?_)
      exact absurd (hr.lands.allowed hwrite.1) (Nat.ne_of_gt hwrite.2)
    · rename_i hwrite
      have hallowed : inv.readOnly → inv.value.getD 0 = 0 := fun h => by simpa [h] using hwrite
      refine echoes_snapshot.bind_silent fun id w' hsnapshot => ?_
      obtain ⟨rfl, rfl⟩ := of_snapshot_ok (x := x.untraced) hv hsnapshot
      have hw' : H (w.setView x.view v.mark) := hq.congr hw rfl
      have hbody := echoes_body hq hw' hi hx (hv.setView v.mark) (Nat.not_lt.mp hgas) hallowed
      refine hbody.attempt.bind (S := fun o r cs => cs = [] ∧ o = .ok r) (fun o w₁ _ => ?_) ?_
      · rcases o with (e | _) | r
        · exact (echoes_revert _).bind_silent fun _ _ _ => .throw _
        · exact .throw _
        · dsimp only
          split
          · exact (echoes_revert _).bind_silent fun _ _ _ => .pure ⟨rfl, rfl⟩
          · exact .pure ⟨rfl, rfl⟩
      · rintro o cs r ds htold ⟨rfl, rfl⟩
        rw [List.append_nil]
        exact overheard_of_mark (htold r rfl)

end

/-! ## With and without a tracer -/

/-- Without a tracer, an apply leaves all tracers alone. -/
theorem untraced_attends {H : World → Prop} (hq : Quiet x.upcall H) (tracers : Pool Tracer) :
    x.untraced.Attends fun w => w.engine.tracers = tracers ∧ H w where
  entered _ _ hw := hw
  exited _ _ hw := hw
  query c h args w hw := by
    obtain ⟨hengine, hw'⟩ := hq.query_settled hw.2 c h args
    exact ⟨(congrArg Engine.tracers hengine).trans hw.1, hw'⟩
  log level msg fields w hw :=
    Outgoing.log_settles (J := fun w => w.engine.tracers = tracers ∧ H w) hw fun sink args _ => by
      obtain ⟨hengine, hw'⟩ := hq.settled sink.handle args hw.2
      exact ⟨(congrArg Engine.tracers hengine).trans hw.1, hw'⟩

theorem untraced_apply_tracers {H : World → Prop} (hq : Quiet x.upcall H) (hw : H w)
    (inv : Invocation) : (x.untraced.apply inv w).2.engine.tracers = w.engine.tracers :=
  ((untraced_attends hq w.engine.tracers).apply (fun _ h => ⟨h.1, hq.congr h.2 rfl⟩)
    (fun _ _ _ h => h) (fun _ _ _ h => h) inv ⟨rfl, hw⟩).1

/-- Side by side, applies come to the same. -/
theorem echoes_apply {H : World → Prop} (hq : Quiet x.upcall H) (hw : H w)
    (hx : x.tracer = some i) (hi : i < w.engine.tracers.objects.length) (hv : w.Holds x.view v)
    (inv : Invocation) :
    Echoes i
      (fun r cs => ∃ during, x.Overheard (fueled inv) v r during ∧
        cs = report (fueled inv) r during [])
      (x.apply inv) (x.untraced.apply inv) w := by
  unfold apply
  refine (echoes_trace hx hi [.txStart _, .start _]).bind_told fun _ w₁ hw₁ => ?_
  cases hw₁
  refine (echoes_run hq hw hi hx hv).bind
    (S := fun r r' cs => r' = r ∧ cs = [.finish (ending (fueled inv) r) 0, .txEnd r.leftOverGas])
    (fun r w₂ hrun => ?_) ?_
  · have hkept := (untraced_attends hq w.engine.tracers).run
      (fun _ h => ⟨h.1, hq.congr h.2 rfl⟩) (fueled inv) ⟨rfl, hw⟩
    obtain ⟨htracers, hw₂⟩ := hkept.ok hrun
    refine (echoes_trace hx (htracers ▸ hi) [.finish _ 0, .txEnd _]).bind_told fun _ w₃ hw₃ => ?_
    cases hw₃
    exact (echoes_log hq hw₂ _ _ _).bind_silent fun _ _ _ => .pure ⟨rfl, rfl⟩
  · rintro r during r' ds htold ⟨rfl, rfl⟩
    exact ⟨during, htold, rfl⟩

theorem toNat_gasUsed (given left : UInt64) :
    (gasUsed given left).toNat = given.toNat - left.toNat := by
  unfold gasUsed
  split
  · rename_i hle
    exact UInt64.toNat_sub_of_le _ _ hle
  · rename_i hlt
    rw [UInt64.le_iff_toNat_le] at hlt
    rw [UInt64.toNat_zero]
    omega

/-- What the frame of an apply tells of the invocation. -/
theorem frame_fueled (inv : Invocation) :
    frame (fueled inv) =
      { opCode := if inv.callee.isNone then .create else .call
        sender := inv.caller
        target := inv.callee.getD .zero
        input := inv.input
        gas := if inv.gas = 0 then maxGas else inv.gas
        value := inv.value } := by
  unfold frame fueled
  split <;> rfl

/-- The recording of an apply, if one frame is open when it ends. -/
theorem result_report {t : Tracer} (hkind : t.kind = .call) {during : List Capture}
    {calls : List Frame}
    (hopened : (((t.tell (.txStart inv.gas)).tell (.start (frame inv))).tellAll during).opened =
      [⟨frame inv, calls⟩]) :
    (t.tellAll (report inv r during [])).result =
      (Frame.node (frame inv) (ending inv r) calls).toJson := by
  have hfold : Tracer.fold (ending inv r)
      (((t.tell (.txStart inv.gas)).tell (.start (frame inv))).tellAll during).opened =
        some (.node (frame inv) (ending inv r) calls) := by
    rw [hopened, Tracer.fold]
    rfl
  have hkind' : (t.tellAll (report inv r during [])).kind = .call := by
    rw [Tracer.kind_tellAll]
    exact hkind
  rw [Tracer.result, hkind', report, Tracer.tellAll_cons, Tracer.tellAll_cons,
    Tracer.tellAll_append, Tracer.tellAll_cons, Tracer.tell_finish_some hfold]
  rfl

/-- **The trace of an apply tells its result.** Take any view, invocation and context, a call tracer
that may have recorded anything before, and a host that keeps to itself. If an apply is answered,
the same apply without the tracer has the same answer, and the same world in the end but for the
tracer: the view is the same, and so is all that the host did and was asked.

The recording is one frame, which tells the invocation and how it ended. If the call reached the
callback, there is one frame in it, with the gas that remained after the cost, which ended the same
way. Else there is none. -/
theorem apply_traced {H : World → Prop} (hq : Quiet x.upcall H) (hw : H w)
    (hx : x.tracer = some i) (hkind : (w.tracer i).kind = .call) (hv : w.Holds x.view v)
    (inv : Invocation) {w' : World} (h : x.apply inv w = (.ok r, w')) :
    ∃ w₀, x.untraced.apply inv w = (.ok r, w₀) ∧ w' = w₀.setTracer i (w'.tracer i) ∧
      ∃ calls,
        (w'.tracer i).result =
          (Frame.node
            { opCode := if inv.callee.isNone then .create else .call
              sender := inv.caller
              target := inv.callee.getD .zero
              input := inv.input
              gas := if inv.gas = 0 then maxGas else inv.gas
              value := inv.value }
            (ending (fueled inv) r) calls).toJson ∧
        (ending (fueled inv) r).gasUsed.toNat = (fueled inv).gas.toNat - r.leftOverGas.toNat ∧
        (∀ callee, x.Reaches (fueled inv) v callee →
          calls =
            [.node (contractFrame (fueled inv) callee) (contractEnding (fueled inv) r) []] ∧
          (contractFrame (fueled inv) callee).gas.toNat = (fueled inv).gas.toNat - 21000 ∧
          ((contractFrame (fueled inv) callee).opCode = .staticCall ↔ inv.readOnly)) ∧
        ((∀ callee, ¬ x.Reaches (fueled inv) v callee) → calls = []) := by
  have hrecords := World.records_of_call hkind
  have hi := (List.getElem?_eq_some_iff.mp hrecords).1
  obtain ⟨cs, hsame, hechoed⟩ := echoes_apply hq hw hx hi hv inv (w.tracer i)
  rw [hrecords.setTracer_self, h] at hsame
  rcases h₀ : x.untraced.apply inv w with ⟨f | r₀, w₀⟩
  · rw [h₀] at hsame
    exact absurd (Prod.mk.inj hsame).1 (by simp)
  rw [h₀] at hsame hechoed
  obtain ⟨rfl, hworld⟩ : r = r₀ ∧ w' = w₀.setTracer i ((w.tracer i).tellAll cs) :=
    ⟨Except.ok.inj (Prod.mk.inj hsame).1, (Prod.mk.inj hsame).2⟩
  obtain ⟨during, htold, rfl⟩ := hechoed r rfl
  have hi₀ : i < w₀.engine.tracers.objects.length := by
    have hkept := untraced_apply_tracers hq hw inv
    rw [h₀] at hkept
    rw [hkept]
    exact hi
  have htracer : w'.tracer i = (w.tracer i).tellAll (report (fueled inv) r during []) := by
    rw [hworld]
    exact World.Records.tracer (List.getElem?_set_self hi₀)
  refine ⟨w₀, rfl, htracer ▸ hworld, ?_⟩
  rw [htracer, ← frame_fueled]
  by_cases hreaches : ∃ callee, x.Reaches (fueled inv) v callee
  · obtain ⟨callee, hr⟩ := hreaches
    obtain rfl := htold.reached hr
    refine ⟨[.node (contractFrame (fueled inv) callee) (contractEnding (fueled inv) r) []],
      result_report hkind rfl, toNat_gasUsed _ _, fun callee' hr' => ?_,
      fun hmissed => absurd hr (hmissed callee)⟩
    obtain rfl := hr.lands.unique hr'.lands
    have hcost : cost (fueled inv) = 21000 := by
      rw [cost, Invocation.isCreate, hr.lands.callee]
      rfl
    refine ⟨rfl, ?_, ?_⟩
    · rw [← hcost]
      exact toNat_sub_cost hr.lands.paid
    · have hreadOnly : (fueled inv).readOnly = inv.readOnly := by
        unfold fueled
        split <;> rfl
      rw [contractFrame, hreadOnly]
      cases inv.readOnly <;> simp
  · have hmissed : ∀ callee, ¬ x.Reaches (fueled inv) v callee := fun callee hr =>
      hreaches ⟨callee, hr⟩
    obtain rfl := htold.missed hmissed
    exact ⟨[], result_report hkind rfl, toNat_gasUsed _ _,
      fun callee hr => absurd hr (hmissed callee), fun _ => rfl⟩

theorem answer_withEngine (text : String) (w : World) (e : Engine) :
    EntryPoint.answer text (w.withEngine e) =
      ((EntryPoint.answer text w).1, (EntryPoint.answer text w).2.withEngine e) := rfl

theorem quiet_leftTo (answer : InvocationResult) : Quiet (leftTo answer).upcall fun _ => True where
  blind _ _ e w _ := answer_withEngine (InvocationResult.codec.encode answer) w e
  keeps _ _ _ _ := trivial
  congr _ _ := trivial

/-- A read-only call that the host executes. Its frame is that of a static call. -/
theorem apply_traced_readOnly :
    let x := { leftTo (.success [7] 5) with tracer := some 0 }
    let inv : Invocation :=
      { caller := .zero, callee := some .zero, gas := 30000, readOnly := true }
    let w : World :=
      { engine :=
          { views := { objects := [default] }, tracers := { objects := [{ kind := .call }] } }
        connected := true }
    Quiet x.upcall (fun _ => True) ∧ (w.tracer 0).kind = .call ∧ w.Holds 0 default ∧
      x.Reaches inv default .zero ∧ ∃ r w' w₀, x.apply inv w = (.ok r, w') ∧
        x.untraced.apply inv w = (.ok r, w₀) ∧
        (w'.tracer 0).result = (Frame.node (frame inv) (ending inv r)
          [.node (contractFrame inv .zero) (contractEnding inv r) []]).toJson ∧
        (contractFrame inv .zero).opCode = .staticCall := by
  intro x inv w
  have hquiet : Quiet x.upcall fun _ => True := quiet_leftTo (.success [7] 5)
  have hreaches : x.Reaches inv default .zero :=
    ⟨⟨rfl, by decide, fun _ => rfl, Nat.zero_le _⟩, by decide, rfl⟩
  have hanswered : (x.apply inv w).1.toOption.isSome := by decide +kernel
  rcases hx : x.apply inv w with ⟨f | r, w'⟩
  · rw [hx] at hanswered
    exact absurd hanswered (by simp [Except.toOption])
  obtain ⟨w₀, h₀, _, calls, hresult, _, hreached, _⟩ :=
    apply_traced hquiet trivial (x := x) (w := w) (v := default) rfl rfl rfl inv hx
  obtain ⟨rfl, _, hstatic⟩ := hreached .zero hreaches
  exact ⟨hquiet, rfl, rfl, hreaches, r, w', w₀, rfl, h₀, hresult, hstatic.mpr rfl⟩

end Executor

end EvmBridge
