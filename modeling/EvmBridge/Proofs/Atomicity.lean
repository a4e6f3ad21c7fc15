import EvmBridge.Proofs.AccountAt
import EvmBridge.Proofs.Calls
import EvmBridge.Proofs.ExecutorSteps

/-!
# An apply that fails is undone

The executor takes a snapshot before it touches the view, and goes back to it when the invocation
fails. In between the host may have called the view in any way. `Executor.apply_atomic` says what
this is worth: the failure is reported only if accounts, access list and revisions are again what
they were, and if they cannot be, because a call has discarded the snapshot, this is what is
reported.

One thing escapes the undoing. The record that tells of an apply is sent when all is done, so a host
that receives it has the last word (`Executor.apply_not_atomic`).
-/

namespace EvmBridge

/-- The host touches the view at a place only by calls. -/
def HostCalls (upcall : Upcall) (i : Nat) : Prop :=
  ∀ (h : Handle) (args : Option Bytes) (w : World) (v : View), w.Holds i v →
    ∃ calls v', v.Calls calls v' ∧ (upcall h args w).2.Holds i v'

/-- Calls have led from a view to the one that stands at a place. -/
def Through (i : Nat) (v : View) (w : World) : Prop :=
  ∃ calls v', v.Calls calls v' ∧ w.Holds i v'

theorem through_of_holds {i : Nat} {v : View} {w : World} (h : w.Holds i v) : Through i v w :=
  ⟨[], v, .none v, h⟩

theorem HostCalls.invariant {upcall : Upcall} {i : Nat} (h : HostCalls upcall i) (v : View) :
    HostInvariant upcall (Through i v) where
  views hw := fun ⟨calls, v', hc, hv'⟩ => ⟨calls, v', hc, hv'.of_views hw⟩
  host handle args := by
    rintro w ⟨calls, v', hc, hv'⟩
    obtain ⟨calls', v'', hc', hv''⟩ := h handle args w v' hv'
    exact ⟨calls ++ calls', v'', hc.trans hc', hv''⟩

namespace Executor

variable {x : Executor} {w : World} {v : View} {inv : Invocation} {value : Nat}
  {remaining : UInt64} {Q : InvocationResult → World → Prop} {E : Fault → World → Prop}

/-! ## What an apply does to the view -/

/-- A body changes the accounts, and then nothing happens but what the host does. It can end in an
overflow only. -/
theorem body_moves {J : Accounts → World → Prop} (hv : w.Holds x.view v)
    (hJ : ∀ accounts, x.Spares (J accounts)) (hw : J v.accounts w)
    (hset : ∀ accounts, J accounts (w.setView x.view { v with accounts })) :
    Keeps (fun w' => ∃ accounts, J accounts w') (x.body inv value remaining w) := by
  have hstill : ∃ accounts, J accounts w := ⟨v.accounts, hw⟩
  have hcounted : ∃ accounts, J accounts (w.setView x.view (counted v inv.caller)) :=
    ⟨_, hset _⟩
  unfold body
  cases inv.callee with
  | none =>
      refine ends_create hv.view hstill (fun _ _ _ => ⟨rfl, hstill⟩) (fun _ _ => hcounted) ?_
      intro v' _ _ _ ht
      obtain ⟨accounts, rfl⟩ := View.transfer_accounts ht
      exact ⟨_, hset _⟩
  | some callee =>
      refine ends_call hv.view (fun _ => ⟨rfl, hstill⟩) (fun _ _ => hcounted) ?_
      intro v' _ ht
      obtain ⟨accounts, rfl⟩ := View.transfer_accounts ht
      refine ((hJ accounts).answer inv callee remaining (hset _)).imp ?_ ?_
      · exact fun _ _ h => ⟨accounts, h⟩
      · exact fun _ _ h => ⟨h.1, accounts, h.2⟩

/-- With a host that makes only calls, nothing but calls happens after that. -/
theorem body_calls (hv : w.Holds x.view v) (hhost : HostCalls x.upcall x.view) :
    Keeps (fun w' => ∃ accounts, Through x.view { v with accounts } w')
      (x.body inv value remaining w) :=
  body_moves hv (fun _ => (hhost.invariant _).spares) (through_of_holds hv)
    fun _ => through_of_holds (hv.setView _)

/-- **How a run ends.** Either it stops before it has touched the view, or it takes a snapshot,
changes the accounts, and leaves the view to the calls; then it keeps what came of them, or goes
back to its snapshot, or finds it gone. -/
theorem ends_run_calls (hv : w.Holds x.view v) (hhost : HostCalls x.upcall x.view)
    (hearly : ∀ r, Q r w) (hfull : E .overflow w)
    (hkept : ∀ r accounts calls u w', View.Calls { v.mark with accounts } calls u →
      w'.Holds x.view u → r.isSuccess → Q r w')
    (hundone : ∀ r accounts calls u v' w', View.Calls { v.mark with accounts } calls u →
      u.revert v.nextRevision = some v' → w'.Holds x.view v' → Q r w')
    (hlost : ∀ accounts calls u w', View.Calls { v.mark with accounts } calls u →
      u.revert v.nextRevision = none → w'.Holds x.view u →
      E (.error (.invalidRevision (Int32.ofNat v.nextRevision))) w')
    (hoverflow : ∀ accounts calls u w', View.Calls { v.mark with accounts } calls u →
      w'.Holds x.view u → E .overflow w') :
    Ends (x.run inv w) Q E := by
  refine ends_run hv.view (fun _ => hearly _) (fun _ _ => hearly _) (fun _ => hfull)
    fun _ _ _ => ?_
  refine (body_calls (hv.setView v.mark) hhost).imp ?_ ?_
  · rintro r w' ⟨accounts, calls, u, hc, hu⟩
    by_cases hs : r.isSuccess
    · rw [if_pos hs]
      exact hkept r accounts calls u w' hc hu hs
    · rw [if_neg hs]
      -- whether there is something to go back to is up to the calls
      cases hr : u.revert v.nextRevision with
      | some v' =>
          rw [ends_revert_some (by rw [hu.view]; exact hr)]
          exact hundone r accounts calls u v' _ hc hr (hu.setView v')
      | none =>
          rw [ends_revert_none (by rw [hu.view]; exact hr)]
          exact hlost accounts calls u w' hc hr hu
  · rintro f w' ⟨rfl, accounts, calls, u, hc, hu⟩
    exact hoverflow accounts calls u w' hc hu

theorem run_calls (hv : w.Holds x.view v) (hhost : HostCalls x.upcall x.view) :
    Ends (x.run inv w) (fun _ => Through x.view v) (fun _ => Through x.view v) := by
  refine ends_run_calls hv hhost (fun _ => through_of_holds hv) (through_of_holds hv) ?_ ?_ ?_ ?_
  · intro r accounts calls u w' hc hu _
    exact ⟨calls, u, .apply accounts hc (Or.inl rfl), hu⟩
  · intro r accounts calls u v' w' hc hr hv'
    exact ⟨calls, v', .apply accounts hc (Or.inr hr), hv'⟩
  · intro accounts calls u w' hc _ hu
    exact ⟨calls, u, .apply accounts hc (Or.inl rfl), hu⟩
  · intro accounts calls u w' hc hu
    exact ⟨calls, u, .apply accounts hc (Or.inl rfl), hu⟩

/-- **An apply is made of calls**, if the host makes only calls: so a host that starts applies of
its own is such a host again. -/
theorem apply_calls (inv : Invocation) (hv : w.Holds x.view v)
    (hhost : HostCalls x.upcall x.view) : Through x.view v (x.apply inv w).2 := by
  have hJ := hhost.invariant v
  refine Ends.world (ends_apply ?_)
  refine (run_calls (hv.of_views (views_traced x _ w)) hhost).imp ?_ fun _ _ h => h
  intro r w' h
  exact hJ.log _ _ _ (hJ.traced _ h)

/-! ## What is left of a failure -/

/-- The accounts, the access list and the revisions are those of another view. -/
structure Restored (v v' : View) : Prop where
  /-- The accounts. -/
  accounts : v'.accounts = v.accounts
  /-- The access list. -/
  accessList : v'.accessList = v.accessList
  /-- The revisions that can be gone back to. -/
  revisions : v'.revisions = v.revisions

/-- Calls have led from the moment after the snapshot to the view that stands at a place, and one
of them has discarded the snapshot, whatever they were. -/
def Discarded (i : Nat) (v : View) (w : World) : Prop :=
  ∃ accounts u, w.Holds i u ∧ (∃ calls, View.Calls { v.mark with accounts } calls u) ∧
    ∀ calls, View.Calls { v.mark with accounts } calls u →
      ∃ c ∈ calls, c.1.Discards c.2 v.nextRevision

/-- From the snapshot on it sits on the stack or is gone for good. -/
theorem guards_of_calls {accounts : Accounts} {calls : List (ViewOp × View)} {u : View}
    (lost : Prop) (hord : v.Ordered) (hc : View.Calls { v.mark with accounts } calls u)
    (hlost : lost ∨ ∀ c ∈ calls, ¬ c.1.Discards c.2 v.nextRevision) :
    View.Guards ⟨v.nextRevision, v.accounts, v.accessList⟩ v.revisions lost u := by
  refine hc.keeps (View.stable_guards _ _ _) (fun c hmem => ?_)
    ((View.guards_mark hord lost).moved accounts _)
  exact hlost.imp_right fun h => h c hmem

theorem run_atomic (hv : w.Holds x.view v) (hord : v.Ordered)
    (hhost : HostCalls x.upcall x.view) :
    Ends (x.run inv w)
      (fun r w' => ¬ r.isSuccess → ∃ v', w'.Holds x.view v' ∧ Restored v v')
      (fun f w' => ∀ e, f = .error e →
        e = .invalidRevision (Int32.ofNat v.nextRevision) ∧ Discarded x.view v w') := by
  refine ends_run_calls hv hhost ?_ (fun e he => absurd he (by simp)) ?_ ?_ ?_ ?_
  · intro _ _
    exact ⟨v, hv, rfl, rfl, rfl⟩
  · intro r accounts calls u w' _ _ hs hns
    exact absurd hs hns
  · -- it could go back, so its snapshot still sat on the stack
    intro r accounts calls u v' w' hc hr hv' _
    have hg := guards_of_calls True hord hc (Or.inl trivial)
    rcases hg.sits with hsits | ⟨_, hgone⟩
    · rw [hsits.revert_id hg.ordered] at hr
      cases hr
      exact ⟨_, hv', rfl, rfl, rfl⟩
    · rw [hgone.revert_id] at hr
      exact absurd hr (by simp)
  · -- it could not, so calls that all spare the snapshot cannot have led here
    intro accounts calls u w' hc hr hu e he
    cases he
    refine ⟨rfl, accounts, u, hu, ⟨calls, hc⟩, fun calls' hc' => ?_⟩
    refine Classical.byContradiction fun hnone => ?_
    have hg := guards_of_calls False hord hc'
      (Or.inr fun c hmem hd => hnone ⟨c, hmem, hd⟩)
    rcases hg.sits with hsits | ⟨hfalse, _⟩
    · rw [hsits.revert_id hg.ordered] at hr
      exact absurd hr (by simp)
    · exact hfalse
  · intro accounts calls u w' _ _ e he
    exact absurd he (by simp)

/-- **A failed apply leaves nothing behind.** Take a view that was reached by any calls, and a host
that touches it by any calls. If an apply answers a failure, accounts, access list and revisions
were as before when all that was left to do was to send the record of the apply; and so they are in
the end, unless the callback that receives this record changes them. If an apply is refused, then
because its own snapshot is gone, and one of the calls has discarded it. -/
theorem apply_atomic (inv : Invocation) (hv : w.Holds x.view v) (hreached : v.Reached)
    (hhost : HostCalls x.upcall x.view) :
    (∀ r w', x.apply inv w = (.ok r, w') → r.executionError ≠ "" →
      ∃ w₁ v₁, w₁.Holds x.view v₁ ∧ Restored v v₁ ∧
        w' = Outgoing.log x.upcall .debug "applied invocation" (appliedFields (fueled inv) r) w₁ ∧
        ((∀ sink args, w₁.sink = some sink → (x.upcall sink.handle args w₁).2.Holds x.view v₁) →
          w'.Holds x.view v₁)) ∧
    (∀ e w', x.apply inv w = (.error (.error e), w') →
      e = .invalidRevision (Int32.ofNat v.nextRevision) ∧ Discarded x.view v w') := by
  have hends : Ends (x.apply inv w)
      (fun r w' => r.executionError ≠ "" → ∃ w₁ v₁, w₁.Holds x.view v₁ ∧ Restored v v₁ ∧
        w' = Outgoing.log x.upcall .debug "applied invocation" (appliedFields (fueled inv) r) w₁)
      (fun f w' => ∀ e, f = .error e →
        e = .invalidRevision (Int32.ofNat v.nextRevision) ∧ Discarded x.view v w') := by
    refine ends_apply ?_
    refine (run_atomic (hv.of_views (views_traced x _ w)) hreached.ordered hhost).imp ?_
      fun _ _ h => h
    intro r w' h hne
    obtain ⟨v', hv', hr⟩ := h (by simpa [InvocationResult.isSuccess] using hne)
    exact ⟨_, v', hv'.of_views (views_traced x _ w'), hr, rfl⟩
  refine ⟨fun r w' he hne => ?_, fun e w' he => hends.error he e rfl⟩
  obtain ⟨w₁, v₁, hv₁, hr, rfl⟩ := hends.ok he hne
  refine ⟨w₁, v₁, hv₁, hr, rfl, fun hquiet => ?_⟩
  exact Outgoing.log_keeps (J := fun w => w.Holds x.view v₁)
    (fun hw h => World.Holds.of_views h hw) hv₁ hquiet

/-- A host that adds to a balance whenever it is called, and answers nothing. -/
def meddlingHost : Upcall := fun _ _ w => (none, w.setView 0 ((w.view 0).addBalance .zero 1))

theorem hostCalls_meddlingHost : HostCalls meddlingHost 0 := by
  intro h args w v hv
  have hw : w.view 0 = v := hv.view
  refine ⟨_, _, .call (.addBalance .zero 1) v, ?_⟩
  show (w.setView 0 ((w.view 0).addBalance .zero 1)).Holds 0 _
  rw [hw]
  exact hv.setView _

/-- What a callback adds before it fails is taken back. -/
theorem apply_undoes_meddling :
    let x : Executor :=
      { upcall := meddlingHost, view := 0, tracer := none
        context := { externalContracts := [.zero], externalCallback := some 7 } }
    let inv : Invocation := { caller := .zero, callee := some .zero, gas := 21000 }
    let v : View := { store := 0 }
    let w : World := { engine := { views := { objects := [v] } }, connected := true }
    w.Holds 0 v ∧ v.Reached ∧ HostCalls x.upcall 0 ∧
      ∃ r w', x.apply inv w = (.ok r, w') ∧ r.executionError ≠ "" ∧
        ∃ w₁ v₁, w₁.Holds 0 v₁ ∧ v₁.accounts = ∅ ∧
          w' = Outgoing.log x.upcall .debug "applied invocation" (appliedFields inv r) w₁ := by
  intro x inv v w
  have hv : w.Holds 0 v := rfl
  have hreached : v.Reached := ⟨0, ∅, [], .none v⟩
  have hfails : (x.apply inv w).1.toOption.any (·.executionError ≠ "") = true := by decide +kernel
  refine ⟨hv, hreached, hostCalls_meddlingHost, ?_⟩
  rcases hx : x.apply inv w with ⟨f | r, w'⟩
  · rw [hx] at hfails
    exact absurd hfails (by simp [Except.toOption])
  · rw [hx] at hfails
    have hne : r.executionError ≠ "" := by simpa [Except.toOption] using hfails
    obtain ⟨w₁, v₁, hv₁, hr, hw', _⟩ :=
      (apply_atomic inv hv hreached hostCalls_meddlingHost).1 r w' hx hne
    exact ⟨r, w', rfl, hne, w₁, v₁, hv₁, hr.accounts, hw'⟩

/-- **The last word of the host is not undone.** The invocation runs out of gas, so the view is as
before; but then the record of the apply is sent to a callback that adds to a balance. -/
theorem apply_not_atomic :
    let x : Executor := { upcall := meddlingHost, view := 0, tracer := none, context := {} }
    let inv : Invocation := { caller := .zero, gas := 1 }
    let v : View := { store := 0 }
    let w : World :=
      { engine := { views := { objects := [v] } }, connected := true, sink := some ⟨1, .debug⟩ }
    w.Holds 0 v ∧ v.Reached ∧ HostCalls x.upcall 0 ∧
      (x.apply inv w).1 = .ok (.failure "out of gas") ∧
      v.balance .zero = 0 ∧ ((x.apply inv w).2.view 0).balance .zero = 1 := by
  intro x inv v w
  refine ⟨rfl, ⟨0, ∅, [], .none v⟩, hostCalls_meddlingHost, rfl, rfl, ?_⟩
  decide +kernel

end Executor

end EvmBridge
