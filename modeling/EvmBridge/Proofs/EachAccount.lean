import EvmBridge.Proofs.Revisions

/-!
# What holds of each account

If something holds of each account of a view, now and in every revision, then it holds on when the
empty accounts are dropped, when a snapshot is taken and when the view goes back. Only an account
that is written to has to be looked at (`View.Each.write`).
-/

namespace EvmBridge

/-- Each account satisfies `P`. -/
def Accounts.Each (P : Account → Prop) (A : Accounts) : Prop :=
  ∀ a account, A.get? a = some account → P account

namespace Accounts

variable {A : Accounts} {P : Account → Prop}

theorem get?_pruned {a : Address} {account : Account} (h : A.pruned.get? a = some account) :
    A.get? a = some account ∧ account.isEmpty = false := by
  rw [pruned, OrdMap.get?_filter, Option.filter_eq_some_iff] at h
  exact ⟨h.1, by simpa using h.2⟩

theorem each_empty : Each P ∅ := fun _ _ h => absurd h (by simp)

theorem Each.insert (hA : A.Each P) {a : Address} {account : Account} (h : P account) :
    Each P (A.insert a account) := by
  intro b account' hget
  rw [OrdMap.get?_insert] at hget
  split at hget
  · cases hget
    exact h
  · exact hA b account' hget

theorem Each.pruned (hA : A.Each P) : A.pruned.Each P :=
  fun a account h => hA a account (get?_pruned h).1

end Accounts

namespace View

variable {v v' : View} {P : Account → Prop}

/-- Each account satisfies `P`, now and in every revision. -/
structure Each (P : Account → Prop) (v : View) : Prop where
  accounts : v.accounts.Each P
  revisions : ∀ r ∈ v.revisions, r.accounts.Each P

theorem Each.write (hv : v.Each P) {a : Address} {account : Account} (h : P account) :
    Each P { v with accounts := v.accounts.insert a account } :=
  ⟨hv.accounts.insert h, hv.revisions⟩

theorem Each.finalize (hv : v.Each P) : v.finalize.Each P :=
  ⟨hv.accounts.pruned, fun _ hr => absurd hr List.not_mem_nil⟩

theorem Each.mark (hv : v.Each P) : v.mark.Each P := by
  refine ⟨hv.accounts, fun r hr => ?_⟩
  rcases List.mem_cons.mp hr with rfl | hr
  · exact hv.accounts
  · exact hv.revisions r hr

/-- What is gone back to, and what is left below it, were revisions before. -/
theorem Each.revert {id : Int} (hv : v.Each P) (h : v.revert id = some v') : v'.Each P := by
  obtain ⟨newer, r, older, hstack, _, _, rfl⟩ := revert_some h
  have hmem : ∀ q ∈ r :: older, q ∈ v.revisions := fun q hq =>
    hstack ▸ List.mem_append_right newer hq
  exact ⟨hv.revisions r (hmem r List.mem_cons_self),
    fun q hq => hv.revisions q (hmem q (List.mem_cons_of_mem r hq))⟩

end View

end EvmBridge
