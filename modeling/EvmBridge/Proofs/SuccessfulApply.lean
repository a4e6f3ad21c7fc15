import EvmBridge.Proofs.AccountAt
import EvmBridge.Proofs.ExecutorSteps
import EvmBridge.Proofs.Revisions

/-!
# The effect of a successful apply

With a host that leaves the view alone, an apply that succeeds does three things and no more: it
counts the caller's nonce, moves the value, and sets up the created contract if there is one.
`Effect` says this for every address at once, so it covers the cases in which caller, callee and
created contract are the same account. `Executor.apply_effect` adds the one revision that stays
behind, by which all of it can be taken back.
-/

namespace EvmBridge

/-- The host leaves the view at a place alone. -/
def QuietHost (upcall : Upcall) (i : Nat) : Prop :=
  ∀ (h : Handle) (args : Option Bytes) (w : World) (v : View), w.Holds i v →
    (upcall h args w).2.Holds i v

theorem QuietHost.invariant {upcall : Upcall} {i : Nat} (h : QuietHost upcall i) (v : View) :
    HostInvariant upcall fun w => w.Holds i v where
  views hw hv := hv.of_views hw
  host handle args _ hv := h handle args _ v hv

namespace Executor

variable {x : Executor} {w : World} {v v' : View} {inv : Invocation} {r : InvocationResult}

/-- Who receives the value: the callee, or the contract that is created. -/
def destination (inv : Invocation) (v : View) : Address :=
  inv.callee.getD (createdAddress v inv.caller)

/-- What a successful invocation does to the accounts. -/
structure Effect (inv : Invocation) (r : InvocationResult) (v v' : View) : Prop where
  /-- One more invocation of the caller is counted. -/
  nonce : (v'.nonce inv.caller).toNat = (v.nonce inv.caller).toNat + 1
  /-- The value goes from the caller to the destination. -/
  balance : ∀ a, v'.balance a + (if a = inv.caller then inv.value.getD 0 else 0) =
    v.balance a + (if a = destination inv v then inv.value.getD 0 else 0)
  /-- Nothing is lost and nothing is made. -/
  supply : v'.accounts.supply = v.accounts.supply
  /-- A created contract was free, has the input as code, and is named in the result. -/
  created : inv.callee = none →
    v.code (destination inv v) = [] ∧ v.nonce (destination inv v) = 0 ∧
    v'.code (destination inv v) = inv.input ∧ v'.nonce (destination inv v) = 1 ∧
    r.contractAddress = some (destination inv v)
  /-- All other nonces are the same. -/
  otherNonce : ∀ a, a ≠ inv.caller → (inv.callee = none → a ≠ destination inv v) →
    v'.nonce a = v.nonce a
  /-- All other codes are the same. -/
  otherCode : ∀ a, (inv.callee = none → a ≠ destination inv v) → v'.code a = v.code a
  /-- All storage is the same. -/
  storage : ∀ a key, v'.storage a key = v.storage a key
  /-- The access list is the same. -/
  accessList : v'.accessList = v.accessList

/-! ## Counting and moving -/

theorem accountAt_counted (v : View) (caller a : Address) :
    (counted v caller).accountAt a =
      { v.accountAt a with
        nonce := if a = caller then v.nonce caller + 1 else (v.accountAt a).nonce } :=
  v.accountAt_setNonce caller a _

theorem toNat_counted {n : UInt64} (h : n.toNat + 1 < UInt64.size) :
    (n + 1).toNat = n.toNat + 1 := by
  rw [UInt64.toNat_add]
  exact Nat.mod_eq_of_lt h

/-- The account at an address after the caller was counted and the value was moved. -/
theorem accountAt_moved {caller receiver : Address} {value : Nat}
    (h : View.Transferred (counted v caller) v' caller receiver value) (a : Address) :
    v'.accountAt a =
      { v.accountAt a with
        nonce := if a = caller then v.nonce caller + 1 else (v.accountAt a).nonce
        balance := v.balance a - (if a = caller then value else 0) +
          (if a = receiver then value else 0) } := by
  rw [h.accountAt, View.balance_eq, accountAt_counted, ← View.balance_eq]

theorem balance_moved {caller receiver : Address} {value : Nat}
    (h : View.Transferred (counted v caller) v' caller receiver value) (a : Address) :
    v'.balance a + (if a = caller then value else 0) =
      v.balance a + (if a = receiver then value else 0) := by
  have hcovered : (if a = caller then value else 0) ≤ v.balance a := by
    split
    · rename_i ha
      have := h.covered
      rwa [View.balance_eq, accountAt_counted, ← View.balance_eq, ← ha] at this
    · exact Nat.zero_le _
  rw [View.balance_eq v', accountAt_moved h]
  dsimp only
  omega

/-- A call counts the caller and moves the value. -/
theorem effect_of_call {callee : Address} (hcallee : inv.callee = some callee)
    (hfits : (v.nonce inv.caller).toNat + 1 < UInt64.size)
    (ht : (counted v inv.caller).transfer inv.caller callee (inv.value.getD 0) = .ok v') :
    Effect inv r v v' := by
  have hmoved := View.transferred ht
  have hat := accountAt_moved hmoved
  have hdest : destination inv v = callee := by rw [destination, hcallee]; rfl
  obtain ⟨accounts, hv'⟩ := View.transfer_accounts ht
  refine ⟨?_, ?_, ?_, ?_, ?_, ?_, ?_, ?_⟩
  · rw [View.nonce_eq, hat]
    simpa using toNat_counted hfits
  · intro a
    rw [hdest]
    exact balance_moved hmoved a
  · rw [hmoved.supply]
    exact v.supply_setNonce _ _
  · intro hnone
    rw [hcallee] at hnone
    exact absurd hnone (by simp)
  · intro a hne _
    rw [View.nonce_eq, hat]
    simpa [hne] using (v.nonce_eq a).symm
  · intro a _
    rw [View.code_eq, hat, View.code_eq]
  · intro a key
    rw [View.storage_eq, hat, View.storage_eq]
  · rw [hv']; rfl

/-- A creation does this too, and then sets up the contract. -/
theorem effect_of_create (hcallee : inv.callee = none)
    (hfits : (v.nonce inv.caller).toNat + 1 < UInt64.size)
    (hcode : v.code (createdAddress v inv.caller) = [])
    (hnonce : v.nonce (createdAddress v inv.caller) = 0)
    (ht : (counted v inv.caller).transfer inv.caller (createdAddress v inv.caller)
      (inv.value.getD 0) = .ok v')
    (hr : r.contractAddress = some (createdAddress v inv.caller)) :
    Effect inv r v ((v'.setNonce (createdAddress v inv.caller) 1).setCode
      (createdAddress v inv.caller) inv.input) := by
  have hmoved := View.transferred ht
  have hdest : destination inv v = createdAddress v inv.caller := by
    rw [destination, hcallee]; rfl
  obtain ⟨accounts, hv'⟩ := View.transfer_accounts ht
  generalize createdAddress v inv.caller = dest at *
  -- the contract is set up on top of the transfer
  have hat := fun a =>
    calc ((v'.setNonce dest 1).setCode dest inv.input).accountAt a
      _ = { (v'.setNonce dest 1).accountAt a with
            code := if a = dest then inv.input else ((v'.setNonce dest 1).accountAt a).code } :=
          View.accountAt_setCode _ _ _ _
      _ = { v'.accountAt a with
            nonce := if a = dest then 1 else (v'.accountAt a).nonce
            code := if a = dest then inv.input else (v'.accountAt a).code } := by
          rw [View.accountAt_setNonce]
  refine ⟨?_, ?_, ?_, ?_, ?_, ?_, ?_, ?_⟩
  · rw [View.nonce_eq, hat, accountAt_moved hmoved]
    by_cases hc : inv.caller = dest
    · -- the caller creates itself: its nonce was zero
      rw [hc, hnonce]
      simp
    · simpa [hc] using toNat_counted hfits
  · intro a
    rw [hdest, View.balance_eq, hat, ← balance_moved hmoved a, View.balance_eq v']
  · rw [View.supply_setCode, View.supply_setNonce, hmoved.supply]
    exact v.supply_setNonce _ _
  · intro _
    rw [hdest]
    refine ⟨hcode, hnonce, ?_, ?_, hr⟩
    · rw [View.code_eq, hat]; simp
    · rw [View.nonce_eq, hat]; simp
  · intro a hne hother
    have hother : a ≠ dest := by rw [← hdest]; exact hother hcallee
    rw [View.nonce_eq, hat, accountAt_moved hmoved]
    simpa [hne, hother] using (v.nonce_eq a).symm
  · intro a hother
    have hother : a ≠ dest := by rw [← hdest]; exact hother hcallee
    rw [View.code_eq, hat, accountAt_moved hmoved, View.code_eq]
    simp [hother]
  · intro a key
    rw [View.storage_eq, hat, accountAt_moved hmoved, View.storage_eq]
  · rw [hv']; rfl

/-! ## From the body to the apply -/

/-- What a successful body leaves behind. -/
def Succeeds (i : Nat) (inv : Invocation) (v : View) (r : InvocationResult) (w : World) : Prop :=
  ∃ v', w.Holds i v' ∧ Effect inv r v v' ∧ v'.revisions = v.revisions

theorem failure_not_success {reason : String} (h : reason ≠ "") :
    ¬ (InvocationResult.failure reason).isSuccess := by
  simpa [InvocationResult.failure, InvocationResult.isSuccess] using h

theorem transfer_reason {sender receiver : Address} {value : Nat} {reason : String}
    (h : v.transfer sender receiver value = .error reason) : reason ≠ "" := by
  rw [(View.transfer_error h).2]
  decide

theorem body_effect {remaining : UInt64} (hv : w.Holds x.view v)
    (hquiet : QuietHost x.upcall x.view) :
    Ends (x.body inv (inv.value.getD 0) remaining w)
      (fun r w' => r.isSuccess → Succeeds x.view inv v r w') (fun _ _ => True) := by
  unfold body
  cases hcallee : inv.callee with
  | none =>
      refine ends_create hv.view ?_ (fun _ _ _ => trivial) ?_ ?_
      · exact fun h => absurd h (failure_not_success (by decide))
      · exact fun reason ht h => absurd h (failure_not_success (transfer_reason ht))
      · intro v' hfits hcode hnonce ht _
        refine ⟨_, hv.setView _, effect_of_create hcallee hfits hcode hnonce ht rfl, ?_⟩
        obtain ⟨accounts, rfl⟩ := View.transfer_accounts ht
        rfl
  | some callee =>
      refine ends_call hv.view (fun _ => trivial) ?_ ?_
      · exact fun reason ht h => absurd h (failure_not_success (transfer_reason ht))
      · intro v' hfits ht
        refine ((hquiet.invariant v').answer inv callee remaining (hv.setView v')).imp ?_
          fun _ _ _ => trivial
        intro r w' hv' _
        refine ⟨v', hv', effect_of_call hcallee hfits ht, ?_⟩
        obtain ⟨accounts, rfl⟩ := View.transfer_accounts ht
        rfl

/-- What a successful apply leaves behind: the effect, and a revision to take it back by. -/
structure Leaves (inv : Invocation) (r : InvocationResult) (v v' : View) : Prop where
  /-- What happened to the accounts. -/
  effect : Effect inv r v v'
  /-- There is one more revision, and it is the state before. -/
  revisions : v'.revisions = ⟨v.nextRevision, v.accounts, v.accessList⟩ :: v.revisions
  /-- Going back to it restores the accounts and the access list. -/
  restores : v'.revert v.nextRevision = some
    { v' with accounts := v.accounts, accessList := v.accessList, revisions := v.revisions }

theorem leaves_of_effect (he : Effect inv r v v') (hr : v'.revisions = v.mark.revisions) :
    Leaves inv r v v' := by
  have hr : v'.revisions = [] ++ ⟨v.nextRevision, v.accounts, v.accessList⟩ :: v.revisions := hr
  exact ⟨he, hr, View.revert_append hr (by simp)⟩

theorem run_effect (hv : w.Holds x.view v) (hquiet : QuietHost x.upcall x.view) :
    Ends (x.run inv w)
      (fun r w' => r.isSuccess → ∃ v', w'.Holds x.view v' ∧ Leaves inv r v v')
      (fun _ _ => True) := by
  refine ends_run hv.view ?_ ?_ (fun _ => trivial) fun _ _ _ => ?_
  · exact fun _ h => absurd h (failure_not_success (by decide))
  · exact fun _ _ h => absurd h (failure_not_success (by decide))
  · refine (body_effect (hv.setView v.mark) hquiet).imp ?_ ?_
    · intro r w' h
      by_cases hs : r.isSuccess
      · rw [if_pos hs]
        obtain ⟨v', hv', he, hr⟩ := h hs
        -- the effect does not depend on the revisions of the view before
        have he : Effect inv r v v' := ⟨he.nonce, he.balance, he.supply, he.created,
          he.otherNonce, he.otherCode, he.storage, he.accessList⟩
        exact fun _ => ⟨v', hv', leaves_of_effect he hr⟩
      · rw [if_neg hs]
        exact Ends.of_forall (fun _ _ h => absurd h hs) fun _ _ => trivial
    · intro f w' _
      cases f with
      | overflow => trivial
      | error e => exact Ends.of_forall (fun _ _ => trivial) fun _ _ => trivial

/-- **What a successful apply does.** With a host that leaves the view alone, it counts the nonce
of the caller, moves the value, and sets up the contract that it creates. Nothing else changes, and
one revision more can be gone back to, which restores the accounts and the access list. -/
theorem apply_effect (inv : Invocation) {w' : World} (hv : w.Holds x.view v)
    (hquiet : QuietHost x.upcall x.view) (h : x.apply inv w = (.ok r, w'))
    (hs : r.executionError = "") :
    ∃ v', w'.Holds x.view v' ∧ Leaves inv r v v' := by
  have hends : Ends (x.apply inv w)
      (fun r w' => r.isSuccess → ∃ v', w'.Holds x.view v' ∧ Leaves (fueled inv) r v v')
      (fun _ _ => True) := by
    refine ends_apply ((run_effect (hv.of_views (views_traced x _ w)) hquiet).imp ?_
      fun _ _ h => h)
    intro r w' h hs
    obtain ⟨v', hv', hl⟩ := h hs
    exact ⟨v', (hquiet.invariant v').log _ _ _ ((hquiet.invariant v').traced _ hv'), hl⟩
  obtain ⟨v', hv', hl⟩ := hends.ok h (by rw [InvocationResult.isSuccess, hs]; rfl)
  refine ⟨v', hv', ?_⟩
  -- the gas has no part in the effect
  unfold fueled at hl
  split at hl
  · exact ⟨⟨hl.effect.nonce, hl.effect.balance, hl.effect.supply, hl.effect.created,
      hl.effect.otherNonce, hl.effect.otherCode, hl.effect.storage, hl.effect.accessList⟩,
      hl.revisions, hl.restores⟩
  · exact hl

/-- Three of ten go from one account to another, or to a contract that is created. -/
theorem apply_effect_transfer :
    let sender : Address := .zero
    let receiver : Address := .ofNat 20 1
    let contract : Address := .ofNat 20 0xb604f8b1135fbfc4b5fef16c02e803104a25fe1b
    let x : Executor :=
      { upcall := fun _ _ w => (none, w), view := 0, tracer := none, context := {} }
    let inv : Invocation :=
      { caller := sender, callee := some receiver, value := some 3, gas := 21000 }
    let creation : Invocation :=
      { caller := sender, value := some 3, input := [96], gas := 60000 }
    let v : View := { store := 0, accounts := .ofList [(sender, { balance := 10 })] }
    let w : World := { engine := { views := { objects := [v] } } }
    w.Holds 0 v ∧ QuietHost x.upcall 0 ∧
      (∃ w' v', x.apply inv w = (.ok (.success [] 0), w') ∧ w'.Holds 0 v' ∧
        v'.balance sender = 7 ∧ v'.balance receiver = 3) ∧
      ∃ r w' v', x.apply creation w = (.ok r, w') ∧ r.executionError = "" ∧
        r.contractAddress = some contract ∧ w'.Holds 0 v' ∧ v'.balance sender = 7 ∧
        v'.balance contract = 3 ∧ v'.code contract = [96] ∧ v'.nonce contract = 1 := by
  intro sender receiver contract x inv creation v w
  have hv : w.Holds 0 v := rfl
  have hquiet : QuietHost x.upcall 0 := fun _ _ _ _ hv => hv
  refine ⟨hv, hquiet, ?_, ?_⟩
  · have hsucceeds : (x.apply inv w).1.toOption = some (.success [] 0) := by decide +kernel
    rcases hx : x.apply inv w with ⟨_ | r, w'⟩
    · rw [hx] at hsucceeds
      exact absurd hsucceeds (by simp [Except.toOption])
    rw [hx] at hsucceeds
    obtain rfl : r = .success [] 0 := Option.some.inj hsucceeds
    obtain ⟨v', hv', hl⟩ := apply_effect inv hv hquiet hx rfl
    have hs : v'.balance sender + 3 = 10 := hl.effect.balance sender
    have hr : v'.balance receiver + 0 = 0 + 3 := hl.effect.balance receiver
    exact ⟨w', v', rfl, hv', by omega, by omega⟩
  · have hsucceeds : (x.apply creation w).1.toOption.map (·.executionError) = some "" := by
      decide +kernel
    rcases hx : x.apply creation w with ⟨_ | r, w'⟩
    · rw [hx] at hsucceeds
      exact absurd hsucceeds (by simp [Except.toOption])
    rw [hx] at hsucceeds
    have herror : r.executionError = "" := Option.some.inj hsucceeds
    obtain ⟨v', hv', hl⟩ := apply_effect creation hv hquiet hx herror
    have hcontract : destination creation v = contract := by decide +kernel
    obtain ⟨-, -, hcode, hnonce, hnamed⟩ := hl.effect.created rfl
    rw [hcontract] at hcode hnonce hnamed
    have hs := hl.effect.balance sender
    have hr := hl.effect.balance contract
    rw [hcontract] at hs hr
    have hs : v'.balance sender + 3 = 10 := hs
    have hr : v'.balance contract + 0 = 0 + 3 := hr
    exact ⟨r, w', v', rfl, herror, hnamed, hv', by omega, by omega, hcode, hnonce⟩

end Executor

end EvmBridge
