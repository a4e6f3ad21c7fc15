import EvmBridge.Engine.Executor
import EvmBridge.Proofs.SortedMap

/-!
# What stands at an address

A view answers for every address, whether there is an account or not: an absent account counts as
an empty one. `accountAt` is the account that it answers for. All questions about accounts are
questions about `accountAt`, and all writes change it at one address, so the effect of a write on
every question follows from `accountAt_update`.

`Accounts.supply` adds up all balances. A write changes it by as much as it changes the one balance.
-/

namespace EvmBridge

namespace View

/-- The account that a view answers for at an address, the empty one if there is none. -/
def accountAt (v : View) (a : Address) : Account := (v.account? a).getD {}

theorem balance_eq (v : View) (a : Address) : v.balance a = (v.accountAt a).balance := by
  unfold balance accountAt
  cases v.account? a <;> rfl

theorem nonce_eq (v : View) (a : Address) : v.nonce a = (v.accountAt a).nonce := by
  unfold nonce accountAt
  cases v.account? a <;> rfl

theorem code_eq (v : View) (a : Address) : v.code a = (v.accountAt a).code := by
  unfold code accountAt
  cases v.account? a <;> rfl

theorem storage_eq (v : View) (a : Address) (key : Hash) :
    v.storage a key = ((v.accountAt a).storage.get? key).getD .zero := by
  unfold storage accountAt
  cases v.account? a <;> rfl

theorem accountAt_update (v : View) (a b : Address) (f : Account → Account) :
    (v.update a f).accountAt b = if b = a then f (v.accountAt a) else v.accountAt b := by
  unfold accountAt account? update
  rw [OrdMap.get?_insert]
  split <;> rfl

theorem accountAt_setNonce (v : View) (a b : Address) (nonce : UInt64) :
    (v.setNonce a nonce).accountAt b =
      { v.accountAt b with nonce := if b = a then nonce else (v.accountAt b).nonce } := by
  rw [setNonce, accountAt_update]
  split
  · rename_i h; rw [h]
  · rfl

theorem accountAt_setCode (v : View) (a b : Address) (code : Bytes) :
    (v.setCode a code).accountAt b =
      { v.accountAt b with code := if b = a then code else (v.accountAt b).code } := by
  rw [setCode, accountAt_update]
  split
  · rename_i h; rw [h]
  · rfl

end View

/-! ## The sum of all balances -/

namespace Accounts

/-- The sum of all balances. -/
def supply (accounts : Accounts) : Nat := (accounts.toList.map fun e => e.2.balance).sum

theorem supply_insert (accounts : Accounts) (a : Address) (x : Account) :
    supply (accounts.insert a x) + ((accounts.get? a).map (·.balance)).getD 0 =
      accounts.supply + x.balance :=
  OrdMap.sum_insertList (fun e : Address × Account => e.2.balance) a x accounts.increasing

end Accounts

namespace View

/-- **A write changes the sum by as much as it changes the one balance.** -/
theorem supply_update (v : View) (a : Address) (f : Account → Account) :
    (v.update a f).accounts.supply + (v.accountAt a).balance =
      v.accounts.supply + (f (v.accountAt a)).balance := by
  have h := Accounts.supply_insert v.accounts a (f (v.accountAt a))
  have hb : ((v.accounts.get? a).map (·.balance)).getD 0 = (v.accountAt a).balance :=
    v.balance_eq a
  rw [hb] at h
  exact h

theorem supply_setNonce (v : View) (a : Address) (nonce : UInt64) :
    (v.setNonce a nonce).accounts.supply = v.accounts.supply := by
  have := v.supply_update a fun acc => { acc with nonce }
  exact Nat.add_right_cancel this

theorem supply_setCode (v : View) (a : Address) (code : Bytes) :
    (v.setCode a code).accounts.supply = v.accounts.supply := by
  have := v.supply_update a fun acc => { acc with code }
  exact Nat.add_right_cancel this

/-! ## Moving value -/

/-- A transfer touches the accounts only. -/
theorem transfer_accounts {v v' : View} {sender receiver : Address} {value : Nat}
    (h : v.transfer sender receiver value = .ok v') : ∃ accounts, v' = { v with accounts } := by
  unfold transfer subBalance at h
  split at h
  · cases h; exact ⟨v.accounts, rfl⟩
  · split at h
    · exact absurd h (by simp)
    · rename_i hle
      dsimp only at h
      rw [if_neg hle] at h
      cases h
      exact ⟨_, rfl⟩

/-- A transfer is refused only if the sender has too little. -/
theorem transfer_error {v : View} {sender receiver : Address} {value : Nat} {reason : String}
    (h : v.transfer sender receiver value = .error reason) :
    v.balance sender < value ∧ reason = "insufficient balance for transfer" := by
  unfold transfer subBalance at h
  split at h
  · exact absurd h (by simp)
  · split at h
    · rename_i hlt
      cases h
      exact ⟨hlt, rfl⟩
    · rename_i hle
      dsimp only at h
      rw [if_neg hle] at h
      exact absurd h (by simp)

/-- What a transfer has moved: nothing but `value` from the sender to the receiver, who may be the
same. -/
structure Transferred (v v' : View) (sender receiver : Address) (value : Nat) : Prop where
  /-- The sender had it. -/
  covered : value ≤ v.balance sender
  /-- Every account is the same but for its balance. -/
  accountAt : ∀ a, v'.accountAt a = { v.accountAt a with
    balance := v.balance a - (if a = sender then value else 0) +
      (if a = receiver then value else 0) }
  /-- The sum of all balances is the same. -/
  supply : v'.accounts.supply = v.accounts.supply

theorem transferred {v v' : View} {sender receiver : Address} {value : Nat}
    (h : v.transfer sender receiver value = .ok v') :
    Transferred v v' sender receiver value := by
  unfold transfer subBalance at h
  split at h
  · rename_i hzero
    cases h
    subst hzero
    refine ⟨Nat.zero_le _, fun a => ?_, rfl⟩
    rw [balance_eq]
    simp
  · split at h
    · exact absurd h (by simp)
    · rename_i hle
      dsimp only at h
      rw [if_neg hle] at h
      cases h
      rw [Nat.not_lt] at hle
      refine ⟨hle, fun a => ?_, ?_⟩
      · simp only [addBalance, accountAt_update, balance_eq]
        by_cases hr : a = receiver
        · by_cases hs : a = sender
          · subst hs; subst hr; simp
          · subst hr; simp [hs]
        · by_cases hs : a = sender
          · subst hs; simp [hr]
          · simp [hr, hs]
      · have h₁ := v.supply_update sender fun acc =>
          { acc with balance := v.balance sender - value }
        have h₂ := (v.update sender fun acc =>
          { acc with balance := v.balance sender - value }).supply_update receiver
            fun acc => { acc with balance := acc.balance + value }
        rw [balance_eq] at h₁ hle
        rw [balance_eq] at h₂
        simp only [addBalance, balance_eq] at h₁ h₂ ⊢
        omega

end View

end EvmBridge
