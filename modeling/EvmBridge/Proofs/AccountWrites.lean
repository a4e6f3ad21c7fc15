import EvmBridge.Proofs.CommittedStates
import EvmBridge.Proofs.LiveSnapshots

/-!
# What calls write to accounts

A call writes to one account at most, its target. All other accounts a view holds after the call it
held before, now or in a revision. So what holds of each account, whether it can be read now or
only after going back, holds on as long as it holds of every account that is written
(`View.each_after`).
-/

namespace EvmBridge

namespace ViewOp

/-- The account that a call writes to. -/
def target? : ViewOp → Option Address
  | addBalance a _ | subBalance a _ | setBalance a _ | setNonce a _ | setCode a _
  | setStorage a _ _ => some a
  | _ => none

/-- If a call writes to an account, then this account satisfies `P` afterwards. -/
def Leaves (op : ViewOp) (v : View) (P : Account → Prop) : Prop :=
  ∀ a account, op.target? = some a → (op.run v).2.account? a = some account → P account

/-- A call writes to no other account than its own, and to nothing else. -/
theorem run_target {op : ViewOp} {a : Address} (h : op.target? = some a) (v : View) :
    (op.run v).2 = v ∨
      ∃ account, (op.run v).2 = { v with accounts := v.accounts.insert a account } := by
  cases op with
  | addBalance | setBalance | setNonce | setCode =>
      cases h
      exact .inr ⟨_, rfl⟩
  | subBalance b amount =>
      cases h
      simp only [run, View.subBalance]
      split
      · exact .inl rfl
      · exact .inr ⟨_, rfl⟩
  | setStorage b key value =>
      cases h
      simp only [run, View.setStorage]
      split
      · exact .inl rfl
      · exact .inr ⟨_, rfl⟩
  | _ => exact absurd h (by simp [target?])

end ViewOp

namespace View

variable {v : View} {ops : List ViewOp} {P : Account → Prop}

/-- **Preserved by every call** that leaves an account of this kind where it writes. -/
theorem Each.run (hv : v.Each P) {op : ViewOp} (hop : op.Leaves v P) : (op.run v).2.Each P := by
  cases htarget : op.target? with
  | some a =>
      rcases op.run_target htarget v with hsame | ⟨account, hwritten⟩
      · rw [hsame]
        exact hv
      · have hat : (op.run v).2.account? a = some account := by
          rw [hwritten]
          exact (OrdMap.get?_insert _ _ _ _).trans (if_pos rfl)
        have hP : P account := hop a account htarget hat
        rw [hwritten]
        exact hv.write hP
  | none =>
      cases op with
      | addBalance | subBalance | setBalance | setNonce | setCode | setStorage =>
          exact absurd htarget (by simp [ViewOp.target?])
      | accessSetup | accessAccount | accessSlot => exact ⟨hv.accounts, hv.revisions⟩
      | finalize | intermediateRoot => exact hv.finalize
      | commit fault => cases fault <;> exact hv.finalize
      | snapshot =>
          by_cases hroom : v.nextRevision < View.maxRevision
          · rw [ViewOp.run_snapshot hroom]
            exact hv.mark
          · rw [ViewOp.run_snapshot_overflow hroom]
            exact hv
      | revert id =>
          cases hr : v.revert id.toInt with
          | none =>
              rw [ViewOp.run_revert_none hr]
              exact hv
          | some v' =>
              rw [ViewOp.run_revert_some hr]
              exact hv.revert hr

theorem each_after (hv : v.Each P)
    (hops : ∀ k (op : ViewOp), ops[k]? = some op → op.Leaves (v.moment ops k) P) :
    (v.after ops).Each P := by
  induction ops using List.reverseRecOn with
  | nil => exact hv
  | append_singleton ops op ih =>
      rw [after_append]
      refine (ih fun k op' hk => ?_).run ?_
      · have hlt : k < ops.length := (List.getElem?_eq_some_iff.mp hk).1
        have hmoment : v.moment (ops ++ [op]) k = v.moment ops k :=
          moment_append (Nat.le_of_lt hlt)
        rw [← hmoment]
        exact hops k op' ((List.getElem?_append_left hlt).trans hk)
      · have hlast := hops ops.length op List.getElem?_concat_length
        rwa [moment_append le_rfl, moment_length] at hlast

end View

end EvmBridge
