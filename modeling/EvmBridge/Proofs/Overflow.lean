import EvmBridge.Proofs.Commits
import EvmBridge.Proofs.SuccessfulApply
import EvmBridge.Proofs.Transparency

/-!
# Applies that are answered with an error

A request for an apply is answered with an error if its arguments cannot be read or one of its
handles names nothing. Then nothing was done. And it is answered with an error if the executor
breaks off because a sum does not fit in its word. Then nothing is undone: the snapshot stays on the
stack, and with it what was done until then.

`Executor.BreaksOff` says when the executor breaks off and what that leaves of the view;
`EntryPoint.failed_apply` says that an error has no other trace.
-/

namespace EvmBridge

/-- Two things that are known of an end hold together. -/
theorem Ends.and {α : Type} {o : Except Fault α × World} {Q Q' : α → World → Prop}
    {E E' : Fault → World → Prop} (h : Ends o Q E) (h' : Ends o Q' E') :
    Ends o (fun r w => Q r w ∧ Q' r w) fun f w => E f w ∧ E' f w := by
  rcases o with ⟨_ | _, w⟩
  · exact ⟨h, h'⟩
  · exact ⟨h, h'⟩

namespace Executor

variable {x : Executor} {w : World} {v u : View} {inv : Invocation} {remaining : UInt64}

/-- A body stops short in a view because a sum does not fit, and leaves another view behind. -/
inductive Stops (context : EvmContext) (inv : Invocation) (v : View) : View → Prop where
  /-- The nonce of the caller cannot be counted. A creation has found its address free by then. -/
  | nonce (hfull : (v.nonce inv.caller).toNat + 1 = UInt64.size)
      (hfree : inv.callee = none → v.code (createdAddress v inv.caller) = [] ∧
        v.nonce (createdAddress v inv.caller) = 0) : Stops context inv v v
  /-- The depth of a call that the host should execute cannot be counted. By then the caller is
  counted and the value has moved. -/
  | depth {callee : Address} {h : Handle} {v' : View} (hcallee : inv.callee = some callee)
      (hfits : (v.nonce inv.caller).toNat + 1 < UInt64.size)
      (hmoved : (counted v inv.caller).transfer inv.caller callee (inv.value.getD 0) = .ok v')
      (hexternal : context.externalContracts.contains callee)
      (hcallback : context.externalCallback = some h)
      (hfull : context.initialDepth.toNat + 1 = UInt32.size) : Stops context inv v v'

/-- A run gets to its body, which stops short. The body starts from a snapshot. -/
structure BreaksOff (context : EvmContext) (inv : Invocation) (v u : View) : Prop where
  /-- The cost can be paid. -/
  paid : cost inv ≤ inv.gas.toNat
  /-- Nothing is written that may not be written. -/
  allowed : inv.readOnly → inv.value.getD 0 = 0
  /-- The snapshot can be numbered. -/
  numbered : v.nextRevision < View.maxRevision
  /-- The body stops short. -/
  stops : Stops context inv v.mark u

/-! ## Only a sum breaks an invocation off -/

theorem blockHash_answers (number : Nat) :
    Ends (x.blockHash number w) (fun _ _ => True) fun _ _ => False := by
  unfold blockHash
  cases x.context.blockHashCallback with
  | none => trivial
  | some h =>
      simp only [Act.ends_bind, ends_query]
      generalize Outgoing.query x.upcall Codec.hash h (Json.str (Quantity.encode number)).render w
        = o
      rcases o with ⟨_ | hash, w'⟩
      · trivial
      · trivial

/-- An answer stops short at most before the host is called. -/
theorem answer_stops {callee : Address} :
    Ends (x.answer inv callee remaining w) (fun _ _ => True) fun f w' =>
      f = .overflow ∧ w' = w ∧ x.context.externalContracts.contains callee ∧
        (∃ h, x.context.externalCallback = some h) ∧
        x.context.initialDepth.toNat + 1 = UInt32.size := by
  unfold answer
  split
  · rename_i hexternal
    unfold external
    cases hh : x.context.externalCallback with
    | none => trivial
    | some h =>
        simp only [Act.ends_bind, ends_nextDepth, ends_trace, ends_query, Act.ends_pure]
        split
        · trivial
        · rename_i hfull
          have := x.context.initialDepth.toNat_lt_size
          exact ⟨trivial, trivial, hexternal, ⟨h, rfl⟩, by omega⟩
  · split
    · exact Act.ends_bind.mpr ((blockHash_answers _).imp (fun _ _ _ => trivial)
        fun _ _ h => h.elim)
    · trivial

theorem body_stops (hv : w.Holds x.view v) :
    Ends (x.body inv (inv.value.getD 0) remaining w) (fun _ _ => True) fun f w' =>
      f = .overflow ∧ ∃ u, Stops x.context inv v u ∧ w'.Holds x.view u := by
  unfold body
  cases hcallee : inv.callee with
  | none =>
      refine ends_create hv.view trivial ?_ (fun _ _ => trivial) fun _ _ _ _ _ => trivial
      intro hcode hnonce hfull
      exact ⟨rfl, v, .nonce hfull fun _ => ⟨hcode, hnonce⟩, hv⟩
  | some callee =>
      refine ends_call hv.view ?_ (fun _ _ => trivial) ?_
      · intro hfull
        refine ⟨rfl, v, .nonce hfull fun hnone => ?_, hv⟩
        rw [hcallee] at hnone
        exact absurd hnone (by simp)
      · intro v' hfits hmoved
        refine answer_stops.imp (fun _ _ _ => trivial) ?_
        rintro f w' ⟨rfl, rfl, hexternal, ⟨h, hcallback⟩, hfull⟩
        exact ⟨rfl, v', .depth hcallee hfits hmoved hexternal hcallback hfull, hv.setView v'⟩

/-- While `K` holds, the view of an executor is written by the executor only. -/
structure Still (x : Executor) (K : World → Prop) : Prop where
  /-- Tracer and host leave the view as it is, and keep `K`. -/
  spares : ∀ v, x.Spares fun w => w.Holds x.view v ∧ K w
  /-- What is written does not matter. -/
  put : ∀ (v : View) {w : World}, K w → K (w.setView x.view v)

theorem still_of_quiet (hquiet : QuietHost x.upcall x.view) : x.Still fun _ => True where
  spares v := by simpa only [and_true] using (hquiet.invariant v).spares
  put _ _ hw := hw

/-- If the view is left alone, a run is never refused: its snapshot is there to go back to. So it
ends in a fault only if there can be no snapshot, and then it has not touched the view, or if it
breaks off. -/
theorem run_breaksOff {K : World → Prop} (hstill : x.Still K) (hv : w.Holds x.view v) (hw : K w) :
    Ends (x.run inv w) (fun _ _ => True) fun f w' =>
      f = .overflow ∧ (¬ v.nextRevision < View.maxRevision ∧ w'.Holds x.view v ∨
        ∃ u, BreaksOff x.context inv v u ∧ w'.Holds x.view u) := by
  refine ends_run hv.view (fun _ => trivial) (fun _ _ => trivial)
    (fun hfull => ⟨rfl, .inl ⟨hfull, hv⟩⟩) fun hpaid hallowed hnumbered => ?_
  have hmarked := hv.setView v.mark
  have hkept := hstill.put v.mark hw
  have hmoves : Keeps (fun w' => ∃ accounts, w'.Holds x.view { v.mark with accounts } ∧ K w')
      (x.body inv (inv.value.getD 0) (inv.gas - UInt64.ofNat (cost inv))
        (w.setView x.view v.mark)) :=
    body_moves hmarked (fun _ => hstill.spares _) ⟨hmarked, hkept⟩
      fun _ => ⟨hmarked.setView _, hstill.put _ hkept⟩
  refine (hmoves.and (body_stops hmarked)).imp ?_ ?_
  · rintro r w' ⟨⟨accounts, hu, _⟩, _⟩
    split
    · trivial
    · have hsits : ({ v.mark with accounts } : View).revisions =
          [] ++ ⟨v.nextRevision, v.accounts, v.accessList⟩ :: v.revisions := rfl
      have hback := View.revert_append hsits (by simp)
      rw [ends_revert_some (by rw [hu.view]; exact hback)]
      trivial
  · rintro f w' ⟨_, rfl, u, hs, hu⟩
    exact ⟨rfl, .inr ⟨u, ⟨hpaid, hallowed, hnumbered, hs⟩, hu⟩⟩

theorem apply_breaksOff {K : World → Prop} (hstill : x.Still K) (hv : w.Holds x.view v)
    (hw : K w) :
    Ends (x.apply inv w) (fun _ _ => True) fun f w' =>
      f = .overflow ∧ (¬ v.nextRevision < View.maxRevision ∧ w'.Holds x.view v ∨
        ∃ u, BreaksOff x.context (fueled inv) v u ∧ w'.Holds x.view u) := by
  obtain ⟨hv, hw⟩ := (hstill.spares v).traced
    (fun t => (t.txStart (fueled inv).gas).start (frame (fueled inv))) ⟨hv, hw⟩
  exact ends_apply ((run_breaksOff hstill hv hw).imp (fun _ _ _ => trivial) fun _ _ h => h)

/-! ## Where a sum does not fit, an invocation breaks off -/

theorem Stops.body (hs : Stops x.context inv v u) (hv : w.Holds x.view v) :
    Ends (x.body inv (inv.value.getD 0) remaining w) (fun _ _ => False) fun f w' =>
      f = .overflow ∧ w'.Holds x.view u := by
  unfold Executor.body
  cases hs with
  | nonce hfull hfree =>
      have hfull : ¬ (v.nonce inv.caller).toNat + 1 < UInt64.size := by omega
      cases hcallee : inv.callee with
      | none =>
          obtain ⟨hcode, hnonce⟩ := hfree hcallee
          unfold createdAddress at hcode hnonce
          simp only [create, Act.ends_bind, ends_look, hv.view, hcode, hnonce, List.isEmpty_nil,
            Bool.not_true, ne_eq, not_true_eq_false, decide_false, Bool.or_self,
            Bool.false_eq_true, if_false, ends_nextNonce, if_neg hfull]
          exact ⟨trivial, hv⟩
      | some callee =>
          simp only [call, Act.ends_bind, ends_look, hv.view, ends_nextNonce, if_neg hfull]
          exact ⟨trivial, hv⟩
  | @depth callee h v' hcallee hfits hmoved hexternal hcallback hfull =>
      have hfull : ¬ x.context.initialDepth.toNat + 1 < UInt32.size := by omega
      unfold counted at hmoved
      simp only [hcallee, call, Act.ends_bind, ends_look, hv.view, ends_nextNonce, if_pos hfits,
        hmoved, ends_put, answer, hexternal, if_true, external, hcallback, ends_nextDepth,
        if_neg hfull]
      exact ⟨trivial, hv.setView u⟩

theorem BreaksOff.run (hb : BreaksOff x.context inv v u) (hv : w.Holds x.view v) :
    Ends (x.run inv w) (fun _ _ => False) fun f w' => f = .overflow ∧ w'.Holds x.view u := by
  have hpaid : ¬ inv.gas.toNat < cost inv := Nat.not_lt.mpr hb.paid
  have hallowed : ¬ (inv.readOnly && decide (0 < inv.value.getD 0)) = true := by
    intro h
    rw [Bool.and_eq_true, decide_eq_true_eq] at h
    have := hb.allowed h.1
    omega
  unfold Executor.run
  rw [if_neg hpaid]
  dsimp only
  rw [if_neg hallowed]
  simp only [Act.ends_bind, ends_snapshot, hv.view, if_pos hb.numbered, Act.ends_attempt]
  refine (hb.stops.body (hv.setView v.mark)).imp (fun _ _ h => h.elim) ?_
  rintro f w' ⟨rfl, hu⟩
  exact ⟨rfl, hu⟩

theorem BreaksOff.apply (hb : BreaksOff x.context (fueled inv) v u) (hv : w.Holds x.view v) :
    Ends (x.apply inv w) (fun _ _ => False) fun f w' => f = .overflow ∧ w'.Holds x.view u :=
  ends_apply ((hb.run (hv.of_views (views_traced x _ w))).imp (fun _ _ h => h.elim)
    fun _ _ h => h)

/-- What breaks off leaves its snapshot on the stack. -/
theorem BreaksOff.revisions {context : EvmContext} (hb : BreaksOff context inv v u) :
    u.revisions = ⟨v.nextRevision, v.accounts, v.accessList⟩ :: v.revisions := by
  cases hb.stops with
  | nonce => rfl
  | depth _ _ hmoved =>
      obtain ⟨accounts, rfl⟩ := View.transfer_accounts hmoved
      rfl

end Executor

/-! ## Requests -/

/-- A value whose members are no arrays or objects themselves. -/
theorem Json.depth_obj_le {ms : List (String × Json)} (h : ∀ e ∈ ms, e.2.depth = 0) :
    (Json.obj ms).depth ≤ 1 := by
  have hms : depthOfMembers ms = 0 := by
    induction ms with
    | nil => rfl
    | cons e ms ih =>
        rw [depthOfMembers, h e List.mem_cons_self,
          ih fun e' he' => h e' (List.mem_cons_of_mem _ he')]
        rfl
  rw [depth, hms]

theorem Json.depth_canonical_obj_le {ms : List (String × Json)} (h : ∀ e ∈ ms, e.2.depth = 0) :
    (Json.obj ms).canonical.depth ≤ 1 := by
  rw [canonical, canonicalMembers_eq]
  refine depth_obj_le fun e he => ?_
  obtain ⟨e', he', rfl⟩ := List.mem_map.mp (OrdMap.mem_of_mem_ofList he)
  have hflat := h e' he'
  cases hv : e'.2 with
  | null | bool | num | str => rfl
  | arr items =>
      rw [hv, depth] at hflat
      exact absurd hflat (Nat.succ_ne_zero _)
  | obj members =>
      rw [hv, depth] at hflat
      exact absurd hflat (Nat.succ_ne_zero _)

namespace Service

variable {upcall : Upcall} {w : World} {i : Nat} {v u : View}

/-- The answer to an apply is never taken for an error. -/
theorem decode_reply_apply (r : InvocationResult) (message : String) :
    Envelope.decode .any (Envelope.success (reply .apply r)).encode ≠ .ok (.error message) := by
  have hanswers : Answers (reply .apply r) :=
    answers_reply ((InvocationResult.roundTrips (n := 0)).plain r)
  have hdepth : (reply .apply r).depth ≤ 1 := by
    refine Json.depth_canonical_obj_le fun e he => ?_
    -- five members, each of them a text or a truth value
    rcases r with ⟨data, gas, error, reverted, _ | address⟩
    · rcases he with _ | ⟨_, _ | ⟨_, _ | ⟨_, _ | ⟨_, he⟩⟩⟩⟩
      any_goals rfl
      exact absurd he (List.not_mem_nil)
    · rcases he with _ | ⟨_, _ | ⟨_, _ | ⟨_, _ | ⟨_, _ | ⟨_, he⟩⟩⟩⟩⟩
      any_goals rfl
      exact absurd he (List.not_mem_nil)
  rw [Envelope.decode_success hanswers.plain hanswers.canonical
    (Nat.lt_of_le_of_lt hdepth (by decide))]
  cases Codec.any.ofJson (reply .apply r) with
  | error fault => exact fun h => absurd h (by simp)
  | ok v => exact fun h => absurd h (by simp)

/-- The handles of a request for an apply lead somewhere, that of the view to this place. -/
structure Reaches (w : World) (p : EvmParams) (i : Nat) : Prop where
  view : w.engine.views.find p.handle = .ok i
  tracer : ∀ h, p.context.tracer = some h → ∃ j, w.engine.tracers.find h = .ok j

/-- A request for an apply makes the executor break off in a view, and this is left of it. -/
def BreaksOff (w : World) (args : Option String) (i : Nat) (v u : View) : Prop :=
  ∃ p, Request.ofCall "EvmApply" args = .ok (.apply p) ∧ Reaches w p i ∧
    Executor.BreaksOff (p.context.withDefaults 0) (Executor.fueled p.invocation) v u

/-- A request for an apply is refused where it stands, or left to an executor. -/
theorem apply_cases (p : EvmParams) (w : World) :
    ((∃ h, apply upcall p w = (.error (.error (.invalidHandle h)), w)) ∧ ∀ j, ¬ Reaches w p j) ∨
    ∃ j tracer?, Reaches w p j ∧
      apply upcall p w = Executor.apply
        { upcall, view := j, tracer := tracer?, context := p.context.withDefaults 0 }
        p.invocation w := by
  rcases hview : w.engine.views.find p.handle with e | j
  · obtain ⟨rfl, -⟩ := Pool.find_eq_error_iff.mp hview
    have hmissed : findView p.handle w = (.error (.error (.invalidHandle p.handle)), w) :=
      Act.ofExcept_error hview
    refine Or.inl ⟨⟨p.handle, Act.bind_error hmissed⟩, fun j hj => ?_⟩
    rw [hj.view] at hview
    exact absurd hview (by simp)
  · have hfound : findView p.handle w = (.ok j, w) := Act.ofExcept_ok hview
    unfold apply
    rw [Act.bind_ok hfound]
    cases ht : p.context.tracer with
    | none =>
        refine Or.inr ⟨j, none, ⟨hview, fun h hh => ?_⟩, rfl⟩
        rw [ht] at hh
        exact absurd hh (by simp)
    | some h =>
        rcases htracer : w.engine.tracers.find h with e | t
        · obtain ⟨rfl, -⟩ := Pool.find_eq_error_iff.mp htracer
          have hmissed : findTracer h w = (.error (.error (.invalidHandle h)), w) :=
            Act.ofExcept_error htracer
          refine Or.inl ⟨⟨h, Act.bind_error ?_⟩, fun j hj => ?_⟩
          · rw [map_eq_pure_bind, Act.bind_error hmissed]
          · obtain ⟨t, ht'⟩ := hj.tracer h ht
            rw [ht'] at htracer
            exact absurd htracer (by simp)
        · have hfound : findTracer h w = (.ok t, w) := Act.ofExcept_ok htracer
          refine Or.inr ⟨j, some t, ⟨hview, fun h' hh => ?_⟩, Act.bind_ok (Act.map_ok hfound)⟩
          rw [ht] at hh
          cases hh
          exact ⟨t, htracer⟩

/-- A request for an apply is refused if it is not understood. -/
theorem dispatch_apply (args : Option String) (w : World) :
    ((∃ e, dispatch upcall "EvmApply" args w = (.error (.error e), w)) ∧
      ∀ p, Request.ofCall "EvmApply" args ≠ .ok (.apply p)) ∨
    ∃ p, Request.ofCall "EvmApply" args = .ok (.apply p) ∧
      dispatch upcall "EvmApply" args w = (reply .apply <$> apply upcall p : Act Json) w := by
  have hcall : Request.ofCall "EvmApply" args = .apply <$> Request.params .apply args := rfl
  unfold dispatch
  rw [hcall]
  rcases Request.params .apply args with e | p
  · exact Or.inl ⟨⟨e, rfl⟩, fun p h => absurd h (by simp [Functor.map, Except.map])⟩
  · exact Or.inr ⟨p, rfl, rfl⟩

/-- An apply that ends in a fault has left the view alone, or has broken off. -/
theorem dispatch_failed (hv : w.Holds i v) (hquiet : QuietHost upcall i) (args : Option String) :
    Ends (dispatch upcall "EvmApply" args w) (fun a _ => ∃ r, a = reply .apply r) fun _ w' =>
      w'.Holds i v ∨ ∃ u, BreaksOff w args i v u := by
  rcases dispatch_apply args w with ⟨⟨e, he⟩, _⟩ | ⟨p, hread, he⟩
  · rw [he]
    exact Or.inl hv
  rw [he, Act.ends_map]
  rcases apply_cases p w with ⟨⟨h, ha⟩, _⟩ | ⟨j, tracer?, hreaches, ha⟩
  · rw [ha]
    exact Or.inl hv
  rw [ha]
  by_cases hij : j = i
  · subst hij
    refine (Executor.apply_breaksOff (Executor.still_of_quiet hquiet) hv trivial).imp
      (fun r _ _ => ⟨r, rfl⟩) ?_
    rintro f w' ⟨_, ⟨_, hv'⟩ | ⟨u, hb, _⟩⟩
    · exact Or.inl hv'
    · exact Or.inr ⟨u, p, hread, hreaches, hb⟩
  · -- the executor works on another view
    have hkept := (hquiet.invariant v).apply
      (x := ⟨upcall, j, tracer?, p.context.withDefaults 0⟩)
      (fun u hw' => World.Holds.setView_ne hw' hij u) p.invocation hv
    exact (Ends.of_world hkept).imp (fun r _ _ => ⟨r, rfl⟩) fun _ _ h => Or.inl h

/-- Where a request breaks off, it ends in an overflow. -/
theorem BreaksOff.dispatch {args : Option String} (hb : BreaksOff w args i v u)
    (hv : w.Holds i v) :
    ∃ w', dispatch upcall "EvmApply" args w = (.error .overflow, w') ∧ w'.Holds i u := by
  obtain ⟨p, hread, hreaches, hb⟩ := hb
  have hends : Ends (Service.dispatch upcall "EvmApply" args w) (fun _ _ => False) fun f w' =>
      f = .overflow ∧ w'.Holds i u := by
    rcases dispatch_apply args w with ⟨_, hnone⟩ | ⟨p', hread', he⟩
    · exact absurd hread (hnone p)
    obtain rfl : p = p' := by simpa using hread.symm.trans hread'
    rw [he, Act.ends_map]
    rcases apply_cases p w with ⟨_, hnone⟩ | ⟨j, tracer?, hreaches', ha⟩
    · exact absurd hreaches (hnone i)
    obtain rfl : i = j := by simpa using hreaches.view.symm.trans hreaches'.view
    rw [ha]
    exact Executor.BreaksOff.apply (x := ⟨upcall, i, tracer?, p.context.withDefaults 0⟩) hb hv
  rcases hd : Service.dispatch upcall "EvmApply" args w with ⟨f | a, w'⟩
  · obtain ⟨rfl, hu⟩ := hends.error hd
    exact ⟨w', rfl, hu⟩
  · exact (hends.ok hd).elim

end Service

/-! ## The entry point -/

namespace EntryPoint

variable {upcall : Upcall} {i : Nat} {v u : View} {w w' : World} {args : Option Bytes}
  {text : String}

/-- The name of the method that applies an invocation. -/
def applyName : Bytes := Utf8.encode "EvmApply"

theorem text?_applyName : text? (some applyName) = some "EvmApply" := text?_encode (by decide)

/-- **What an apply leaves behind that is answered with an error.** Take any view and a host that
leaves it alone, and any arguments at all. If the request makes the executor break off, the answer
is an error, and what was done until then stays, under one revision more. If it does not, an error
has left no trace in the view. -/
theorem failed_apply (hv : w.Holds i v) (hquiet : QuietHost upcall i)
    (h : respond upcall (some applyName) args w = (text, w')) :
    ((¬ ∃ u, Service.BreaksOff w (text? args) i v u) →
      ∀ message, Envelope.decode .any text = .ok (.error message) → w'.Holds i v) ∧
    ∀ u, Service.BreaksOff w (text? args) i v u →
      text = failure "native panic" ∧ w'.Holds i u ∧
        u.revisions = ⟨v.nextRevision, v.accounts, v.accessList⟩ :: v.revisions := by
  by_cases hread : args.isSome && (text? args).isNone
  · -- the arguments are no text, so they are not even looked at
    have hrefused :
        respond upcall (some applyName) args w =
          (failure "arguments are not a valid string", w) := by
      unfold respond
      rw [text?_applyName]
      dsimp only
      rw [if_pos hread]
    obtain ⟨rfl, rfl⟩ := Prod.mk.inj (hrefused.symm.trans h)
    refine ⟨fun _ _ _ => hv, ?_⟩
    rintro u ⟨p, hp, _⟩
    rw [Bool.and_eq_true, Option.isNone_iff_eq_none] at hread
    have hmissing : Request.ofCall "EvmApply" none = .error (.invalidArguments .missing) := rfl
    rw [hread.2, hmissing] at hp
    exact absurd hp (by simp)
  rcases hd : Service.dispatch upcall "EvmApply" (text? args) w with ⟨out, w₁⟩
  have hrespond := respond_eq text?_applyName hread hd
  obtain ⟨rfl, rfl⟩ := Prod.mk.inj (hrespond.symm.trans h)
  constructor
  · intro hfits message hmessage
    have hends := Service.dispatch_failed hv hquiet (text? args)
    rcases out with f | a
    · have hkept : w₁.Holds i v := (hends.error hd).resolve_right hfits
      cases f with
      | error e => exact (hquiet.invariant v).log _ _ _ hkept
      | overflow => exact hkept
    · obtain ⟨r, rfl⟩ := hends.ok hd
      exact absurd hmessage (Service.decode_reply_apply r message)
  · intro u hb
    obtain ⟨w₂, hover, hu⟩ : ∃ w₂,
        Service.dispatch upcall "EvmApply" (text? args) w = (.error .overflow, w₂) ∧
          w₂.Holds i u := hb.dispatch hv
    obtain ⟨rfl, rfl⟩ := Prod.mk.inj (hd.symm.trans hover)
    obtain ⟨p, _, _, hexecutor⟩ := hb
    exact ⟨rfl, hu, hexecutor.revisions⟩

/-- A request to send three of ten to a callee that the host executes, deeper than any depth that
can be counted. -/
def sendThree : EvmParams where
  handle := 1
  invocation := { caller := .zero, callee := some (.ofNat 20 1), value := some 3, gas := 21000 }
  context :=
    { externalContracts := [.ofNat 20 1], externalCallback := some 1, initialDepth := 0xffffffff }

def sendThreeArgs : Bytes := Utf8.encode (EvmParams.codec.encode sendThree)

/-- Ten belong to the caller. -/
def tenView : View := { store := 0, accounts := .ofList [(.zero, { balance := 10 })] }

def tenWorld : World where
  engine :=
    { views := { objects := [tenView], handles := { current := 1, used := .ofList [(1, 0)] } } }

/-- The three have moved, and the caller is counted. -/
def sevenView : View :=
  { tenView.mark with
    accounts := .ofList [(.zero, { balance := 7, nonce := 1 }), (.ofNat 20 1, { balance := 3 })] }

theorem text?_sendThreeArgs :
    text? (some sendThreeArgs) = some (EvmParams.codec.encode sendThree) :=
  text?_encode (Json.nul_render _)

theorem ofCall_sendThree :
    Request.ofCall "EvmApply" (some (EvmParams.codec.encode sendThree)) =
      .ok (.apply sendThree) := by
  have hcall : Request.ofCall "EvmApply" (some (EvmParams.codec.encode sendThree)) =
      .apply <$> Request.params .apply (some (EvmParams.codec.encode sendThree)) := rfl
  rw [hcall]
  exact congrArg (Request.apply <$> ·)
    (Request.params_encode EvmParams.roundTrips sendThree)

theorem breaksOff_sendThree :
    Service.BreaksOff tenWorld (text? (some sendThreeArgs)) 0 tenView sevenView := by
  have hreaches : Service.Reaches tenWorld sendThree 0 :=
    ⟨rfl, fun h hh => absurd hh (by simp [sendThree])⟩
  have hstops : Executor.Stops (sendThree.context.withDefaults 0)
      (Executor.fueled sendThree.invocation) tenView.mark sevenView :=
    .depth rfl (by decide) (by rfl) (by decide) rfl rfl
  rw [text?_sendThreeArgs]
  exact ⟨sendThree, ofCall_sendThree, hreaches, by decide, fun h => absurd h (by decide), by decide,
    hstops⟩

/-- Without arguments nothing is sent. With these, the three are gone, and the snapshot is there. -/
theorem failed_apply_sendThree :
    let upcall : Upcall := fun _ _ w => (none, w)
    let missing := respond upcall (some applyName) none tenWorld
    let broken := respond upcall (some applyName) (some sendThreeArgs) tenWorld
    tenWorld.Holds 0 tenView ∧ QuietHost upcall 0 ∧
      (¬ ∃ u, Service.BreaksOff tenWorld (text? none) 0 tenView u) ∧
      Envelope.decode .any missing.1 =
        .ok (.error (EngineError.invalidArguments .missing).message) ∧
      missing.2.Holds 0 tenView ∧
      Service.BreaksOff tenWorld (text? (some sendThreeArgs)) 0 tenView sevenView ∧
      broken.1 = failure "native panic" ∧ broken.2.Holds 0 sevenView := by
  intro upcall missing broken
  have hv : tenWorld.Holds 0 tenView := rfl
  have hquiet : QuietHost upcall 0 := fun _ _ _ _ hv => hv
  have hfits : ¬ ∃ u, Service.BreaksOff tenWorld (text? none) 0 tenView u := by
    rintro ⟨u, p, hp, _⟩
    cases hp
  have hdispatch : Service.dispatch upcall "EvmApply" (text? none) tenWorld =
      (.error (.error (.invalidArguments .missing)), tenWorld) := rfl
  have hfailed : Envelope.decode .any missing.1 =
      .ok (.error (EngineError.invalidArguments .missing).message) := by
    have hmissing := respond_eq text?_applyName (by decide) hdispatch
    rw [show missing = _ from hmissing]
    exact Envelope.decode_failure (Fault.told_ne_empty _)
  have hkept : missing.2.Holds 0 tenView := by
    rcases hm : missing with ⟨text, w'⟩
    rw [hm] at hfailed
    exact (failed_apply hv hquiet hm).1 hfits _ hfailed
  have hbroken : broken.1 = failure "native panic" ∧ broken.2.Holds 0 sevenView := by
    rcases hb : broken with ⟨text, w'⟩
    obtain ⟨htext, hu, _⟩ := (failed_apply hv hquiet hb).2 sevenView breaksOff_sendThree
    exact ⟨htext, hu⟩
  exact ⟨hv, hquiet, hfits, hfailed, hkept, breaksOff_sendThree, hbroken⟩

/-- **An apply that is answered with an error has changed the view.** The host does nothing at
all. -/
theorem failed_apply_leaves_traces :
    let upcall : Upcall := fun _ _ w => (none, w)
    let o := respond upcall (some applyName) (some sendThreeArgs) tenWorld
    let u := o.2.view 0
    Envelope.decode .any o.1 = .ok (.error "native panic") ∧
      tenView.balance .zero = 10 ∧ u.balance .zero = 7 ∧ u.balance (.ofNat 20 1) = 3 ∧
      tenView.nonce .zero = 0 ∧ u.nonce .zero = 1 ∧
      tenView.revisions.length = 0 ∧ u.revisions.length = 1 := by
  intro upcall o u
  have hread : ¬ ((some sendThreeArgs).isSome && (text? (some sendThreeArgs)).isNone) := by
    rw [text?_sendThreeArgs]
    exact Bool.false_ne_true
  obtain ⟨w', hd, hw'⟩ :
      ∃ w', Service.dispatch upcall "EvmApply" (text? (some sendThreeArgs)) tenWorld =
        (.error .overflow, w') ∧ w'.Holds 0 sevenView := breaksOff_sendThree.dispatch rfl
  have ho := respond_eq text?_applyName hread hd
  have hfailed : Envelope.decode .any o.1 = .ok (.error "native panic") := by
    rw [show o = _ from ho]
    exact Envelope.decode_failure (Fault.told_ne_empty _)
  have hu : u = sevenView := by
    show o.2.view 0 = _
    rw [show o = _ from ho]
    exact hw'.view
  rw [hu]
  exact ⟨hfailed, by decide⟩

end EntryPoint

end EvmBridge
