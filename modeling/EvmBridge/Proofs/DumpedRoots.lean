import EvmBridge.Proofs.AccountProofs
import EvmBridge.Proofs.AccountWrites
import EvmBridge.Proofs.CanonicalStates
import EvmBridge.Proofs.HexReading
import EvmBridge.Proofs.ObjectMembers

/-!
# Dumped roots

A dump shows the root of the accounts as they are kept. The calls that answer a root drop the empty
accounts before. So the two differ as soon as a view keeps an empty account
(`View.dump_root_unpruned`), and only then, unless roots clash (`View.dump_root`).

An account is kept although it is empty if a call writes to it and leaves it empty
(`ViewOp.LeavesEmpty`). As long as no call does, no account of the view is empty, whatever is
reverted (`View.full_after`).
-/

namespace EvmBridge

/-! ## Calls that leave an account empty -/

/-- The account that a call writes to is there afterwards, and is empty. -/
def ViewOp.LeavesEmpty (op : ViewOp) (v : View) : Prop :=
  ∃ a account, op.target? = some a ∧ (op.run v).2.account? a = some account ∧ account.isEmpty

namespace View

variable {v : View} {ops : List ViewOp} {preimages : Bool}

/-- No account is empty, now or in a revision. -/
structure Full (v : View) : Prop where
  accounts : v.accounts.NoEmpty
  revisions : ∀ r ∈ v.revisions, r.accounts.NoEmpty

theorem full_iff_each : v.Full ↔ v.Each fun account => account.isEmpty = false :=
  ⟨fun h => ⟨h.accounts, h.revisions⟩, fun h => ⟨h.accounts, h.revisions⟩⟩

/-- **Calls that leave no account empty leave a view without empty accounts,** and going back does
not bring one back. -/
theorem full_after (hv : v.Full)
    (hops : ∀ k (op : ViewOp), ops[k]? = some op → ¬ op.LeavesEmpty (v.moment ops k)) :
    (v.after ops).Full :=
  full_iff_each.mpr <| each_after (full_iff_each.mp hv) fun k op hk a account htarget hat =>
    Bool.eq_false_iff.mpr fun hempty => hops k op hk ⟨a, account, htarget, hat, hempty⟩

/-! ## The root of a dump -/

/-- What a dump shows as the root. -/
def dumpedRoot (v : View) (preimages : Bool) : Option Json :=
  (v.accounts.dump preimages).member? "root"

/-- A dump shows the root of the accounts as they are kept. -/
theorem dumpedRoot_eq (v : View) (preimages : Bool) :
    v.dumpedRoot preimages = some (.str v.accounts.root.toHex) :=
  (Json.member?_object_eq_some_iff (by simp)).mpr (by simp)

theorem dumpedRoot_eq_iff {root : Hash} :
    v.dumpedRoot preimages = some (.str root.toHex) ↔ v.accounts.root = root := by
  rw [dumpedRoot_eq, Option.some.injEq, Json.str.injEq, FixedBytes.toHex_inj]

/-- **A dump shows the root that is answered if the view keeps no empty account, and only then,**
unless there is a clash among what was hashed for the two roots. An intermediate root and a commit
answer the same one. -/
theorem dump_root (v : View) (ops : List ViewOp) (preimages : Bool) :
    let u := v.after ops
    ∃ root, (ViewOp.intermediateRoot.run u).1 = .root root ∧
      ((ViewOp.commit none).run u).1 = .root root ∧
      (u.accounts.NoEmpty → u.dumpedRoot preimages = some (.str root.toHex)) ∧
      (u.dumpedRoot preimages = some (.str root.toHex) →
        u.accounts.NoEmpty ∨ Clash (u.accounts.preimages ++ u.accounts.pruned.preimages)) := by
  intro u
  refine ⟨u.accounts.pruned.root, rfl, rfl, fun hfull => ?_, fun hshown => ?_⟩
  · rw [dumpedRoot_eq_iff, Accounts.pruned_of_noEmpty hfull]
  · by_cases hfree : ClashFree (u.accounts.preimages ++ u.accounts.pruned.preimages)
    · -- without a clash the root tells that nothing was pruned
      have hkept := Accounts.eq_of_root_eq hfree (dumpedRoot_eq_iff.mp hshown)
      exact .inl (hkept ▸ u.accounts.noEmpty_pruned)
    · exact .inr (not_clashFree hfree)

/-- A balance of five, after a higher one was taken back. -/
theorem dump_root_funded :
    let u := (default : View).after
      [.addBalance .zero 5, .snapshot, .setBalance .zero 9, .revert 0]
    u.balance .zero = 5 ∧ u.accounts.NoEmpty ∧
      ∃ root, (ViewOp.intermediateRoot.run u).1 = .root root ∧
        ((ViewOp.commit none).run u).1 = .root root ∧
        u.dumpedRoot true = some (.str root.toHex) := by
  intro u
  have hkept : u.accounts.pruned = u.accounts := by decide +kernel
  have hfull : u.accounts.NoEmpty := hkept ▸ u.accounts.noEmpty_pruned
  obtain ⟨root, hroot, hcommit, hshown, -⟩ := dump_root default
    [.addBalance .zero 5, .snapshot, .setBalance .zero 9, .revert 0] true
  exact ⟨by decide +kernel, hfull, root, hroot, hcommit, hshown hfull⟩

/-- An account that was touched only is in the dump, and the root that is answered is that of the
empty state. -/
theorem dump_root_unpruned :
    let u := (default : View).after [.addBalance .zero 0]
    (ViewOp.intermediateRoot.run u).1 = .root .zero ∧
      ((ViewOp.commit none).run u).1 = .root .zero ∧
      ∀ preimages, u.dumpedRoot preimages ≠ some (.str (.zero : Hash).toHex) := by
  intro u
  refine ⟨by decide +kernel, by decide +kernel, fun preimages hshown => ?_⟩
  have hroot : u.accounts.root ≠ .zero := by decide +kernel
  exact hroot (dumpedRoot_eq_iff.mp hshown)

end View

end EvmBridge
