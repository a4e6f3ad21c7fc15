import EvmBridge.Proofs.Overflow

/-!
# Read-only applies

A read-only invocation must not move value; if it would, it fails before it has touched the view.
That is the only thing that is checked, so everything else is written as ever: the caller is
counted, and a creation stores its contract (`Executor.apply_readOnly_writes`). Balances and
storages stay as they are in any case, and if the invocation does not succeed, all accounts do
(`Executor.apply_readOnly`).
-/

namespace EvmBridge.Executor

variable {x : Executor} {w : World} {v u : View} {inv : Invocation} {r : InvocationResult}

/-- The most that a read-only invocation writes: the caller is counted, and a contract is stored if
one is created. -/
structure Counts (inv : Invocation) (v u : View) : Prop where
  /-- No value moves. -/
  balance : ∀ a, u.balance a = v.balance a
  storage : ∀ a key, u.storage a key = v.storage a key
  nonce : (u.nonce inv.caller).toNat = (v.nonce inv.caller).toNat + 1
  created : inv.callee = none →
    u.code (destination inv v) = inv.input ∧ u.nonce (destination inv v) = 1
  otherNonce : ∀ a, a ≠ inv.caller → (inv.callee = none → a ≠ destination inv v) →
    u.nonce a = v.nonce a
  otherCode : ∀ a, (inv.callee = none → a ≠ destination inv v) → u.code a = v.code a

theorem counts_of_effect (he : Effect inv r v u) (hvalue : inv.value.getD 0 = 0) :
    Counts inv v u where
  balance a := by simpa [hvalue] using he.balance a
  storage := he.storage
  nonce := he.nonce
  created hnone := ⟨(he.created hnone).2.2.1, (he.created hnone).2.2.2.1⟩
  otherNonce := he.otherNonce
  otherCode := he.otherCode

/-- The gas has no part in what is written. -/
theorem counts_of_fueled (h : Counts (fueled inv) v u) : Counts inv v u := by
  unfold fueled at h
  split at h
  · exact ⟨h.balance, h.storage, h.nonce, h.created, h.otherNonce, h.otherCode⟩
  · exact h

/-- If the host leaves the view alone, what does not succeed is undone. -/
theorem run_restores (hv : w.Holds x.view v) (hquiet : QuietHost x.upcall x.view) :
    Ends (x.run inv w)
      (fun r w' => ¬ r.isSuccess → ∃ u, w'.Holds x.view u ∧ u.accounts = v.accounts)
      fun _ _ => True := by
  refine ends_run hv.view (fun _ _ => ⟨v, hv, rfl⟩) (fun _ _ _ => ⟨v, hv, rfl⟩)
    (fun _ => trivial) fun _ _ _ => ?_
  have hmarked := hv.setView v.mark
  have hmoves : Keeps (fun w' => ∃ accounts, w'.Holds x.view { v.mark with accounts })
      (x.body inv (inv.value.getD 0) (inv.gas - UInt64.ofNat (cost inv))
        (w.setView x.view v.mark)) :=
    body_moves hmarked (fun _ => (hquiet.invariant _).spares) hmarked fun _ => hmarked.setView _
  refine hmoves.imp ?_ ?_
  · rintro r w' ⟨accounts, hu⟩
    split
    · rename_i hs
      exact fun hns => absurd hs hns
    · have hsits : ({ v.mark with accounts } : View).revisions =
          [] ++ ⟨v.nextRevision, v.accounts, v.accessList⟩ :: v.revisions := rfl
      have hback := View.revert_append hsits (by simp)
      rw [ends_revert_some (by rw [hu.view]; exact hback)]
      exact fun _ => ⟨_, hu.setView _, rfl⟩
  · rintro f w' ⟨rfl, _⟩
    trivial

/-- A read-only invocation that succeeds moves no value. -/
theorem run_allowed (hv : w.Holds x.view v) (hreadOnly : inv.readOnly) :
    Ends (x.run inv w) (fun r _ => r.isSuccess → inv.value.getD 0 = 0) fun _ _ => True := by
  refine ends_run hv.view ?_ ?_ (fun _ => trivial) fun _ hallowed _ => ?_
  · exact fun _ h => absurd h (failure_not_success (by decide))
  · exact fun _ _ h => absurd h (failure_not_success (by decide))
  · refine .of_forall (fun r w' => ?_) fun f w' => ?_
    · split
      · exact fun _ => hallowed hreadOnly
      · exact Ends.of_forall (fun _ _ _ => hallowed hreadOnly) fun _ _ => trivial
    · cases f with
      | overflow => trivial
      | error e => exact Ends.of_forall (fun _ _ => trivial) fun _ _ => trivial

/-- What an invocation leaves behind that breaks off. -/
theorem BreaksOff.written {context : EvmContext} (hb : BreaksOff context inv v u)
    (hreadOnly : inv.readOnly) :
    u.accounts = v.accounts ∨
      context.initialDepth.toNat + 1 = UInt32.size ∧ Counts inv v u := by
  cases hb.stops with
  | nonce => exact .inl rfl
  | depth hcallee hfits hmoved _ _ hfull =>
      have he := effect_of_call (r := .success [] 0) hcallee hfits hmoved
      -- the snapshot has no part in what is written
      have he : Effect inv (.success [] 0) v u := ⟨he.nonce, he.balance, he.supply, he.created,
        he.otherNonce, he.otherCode, he.storage, he.accessList⟩
      exact .inr ⟨hfull, counts_of_effect he (hb.allowed hreadOnly)⟩

/-- **What a read-only apply writes.** With a host that leaves the view alone, all accounts are as
before unless the invocation succeeds, or breaks off because the depth of a call cannot be counted.
Then the caller has been counted, and a contract was stored if one was created. No value has moved,
and all storage is as before. -/
theorem apply_readOnly (inv : Invocation) (hreadOnly : inv.readOnly) (hv : w.Holds x.view v)
    (hquiet : QuietHost x.upcall x.view) :
    Ends (x.apply inv w)
      (fun r w' => ∃ u, w'.Holds x.view u ∧
        if r.isSuccess then Counts inv v u else u.accounts = v.accounts)
      fun f w' => f = .overflow ∧ ∃ u, w'.Holds x.view u ∧
        (u.accounts = v.accounts ∨
          x.context.initialDepth.toNat + 1 = UInt32.size ∧ Counts inv v u) := by
  have hreadOnly : (fueled inv).readOnly := by
    unfold fueled
    split <;> exact hreadOnly
  have hstarted := hv.of_views
    (views_traced x (fun t => (t.txStart (fueled inv).gas).start (frame (fueled inv))) w)
  refine ends_apply ((((run_restores hstarted hquiet).and (run_effect hstarted hquiet)).and
    ((run_allowed hstarted hreadOnly).and
      (run_breaksOff (still_of_quiet hquiet) hstarted trivial))).imp ?_ ?_)
  · rintro r w' ⟨⟨hrestored, heffect⟩, hallowed, _⟩
    -- the view is left alone when the tracer is told of the end, and the log of the apply
    have hlast : ∀ {u} (f : Tracer → Tracer) (fields : List (String × Json)),
        w'.Holds x.view u → (Outgoing.log x.upcall .debug "applied invocation" fields
          (x.traced f w')).Holds x.view u :=
      fun f _ hu => (hquiet.invariant _).log _ _ _ ((hquiet.invariant _).traced f hu)
    by_cases hs : r.isSuccess
    · obtain ⟨u, hu, hl⟩ := heffect hs
      refine ⟨u, hlast _ _ hu, ?_⟩
      rw [if_pos hs]
      exact counts_of_fueled (counts_of_effect hl.effect (hallowed hs))
    · obtain ⟨u, hu, haccounts⟩ := hrestored hs
      refine ⟨u, hlast _ _ hu, ?_⟩
      rw [if_neg hs]
      exact haccounts
  · rintro f w' ⟨_, _, rfl, ⟨_, hu⟩ | ⟨u, hb, hu⟩⟩
    · exact ⟨rfl, v, hu, .inl rfl⟩
    · refine ⟨rfl, u, hu, (hb.written hreadOnly).imp_right fun ⟨hfull, hcounts⟩ => ?_⟩
      exact ⟨hfull, counts_of_fueled hcounts⟩

/-- A read-only invocation that would move value. -/
theorem apply_readOnly_protected :
    let x : Executor :=
      { upcall := fun _ _ w => (none, w), view := 0, tracer := none, context := {} }
    let inv : Invocation :=
      { caller := .zero, callee := some (.ofNat 20 1), value := some 3, gas := 21000
        readOnly := true }
    let v : View := { store := 0, accounts := .ofList [(.zero, { balance := 10 })] }
    let w : World := { engine := { views := { objects := [v] } } }
    inv.readOnly ∧ w.Holds 0 v ∧ QuietHost x.upcall 0 ∧
      ∃ w' u, x.apply inv w = (.ok (.failure "write protection"), w') ∧ w'.Holds 0 u ∧
        u.accounts = v.accounts := by
  intro x inv v w
  have hv : w.Holds 0 v := rfl
  have hquiet : QuietHost x.upcall 0 := fun _ _ _ _ hv => hv
  have hfails : (x.apply inv w).1.toOption = some (.failure "write protection") := by decide +kernel
  have hends := apply_readOnly inv rfl hv hquiet
  rcases hx : x.apply inv w with ⟨_ | r, w'⟩
  · rw [hx] at hfails
    exact absurd hfails (by simp [Except.toOption])
  rw [hx] at hfails
  obtain rfl : r = .failure "write protection" := Option.some.inj hfails
  obtain ⟨u, hu, haccounts⟩ := hends.ok hx
  rw [if_neg (failure_not_success (by decide))] at haccounts
  exact ⟨rfl, hv, hquiet, w', u, rfl, hu, haccounts⟩

/-- **A read-only creation writes.** It is answered with success, its caller is counted, and the
contract has code and a nonce. -/
theorem apply_readOnly_writes :
    let x : Executor :=
      { upcall := fun _ _ w => (none, w), view := 0, tracer := none, context := {} }
    let inv : Invocation := { caller := .zero, input := [1], gas := 53000, readOnly := true }
    let v : View := { store := 0 }
    let w : World := { engine := { views := { objects := [v] } } }
    let o := x.apply inv w
    let u := o.2.view 0
    let contract := createdAddress v .zero
    inv.readOnly ∧ w.Holds 0 v ∧ QuietHost x.upcall 0 ∧ o.1.toOption.any (·.isSuccess) ∧
      v.nonce .zero = 0 ∧ u.nonce .zero = 1 ∧ v.code contract = [] ∧ u.code contract = [1] ∧
      v.nonce contract = 0 ∧ u.nonce contract = 1 := by
  intro x inv v w o u contract
  refine ⟨rfl, rfl, fun _ _ _ _ hv => hv, ?_⟩
  decide +kernel

end EvmBridge.Executor
