import EvmBridge.Proofs.Commits
import EvmBridge.Proofs.InclusionProofs
import EvmBridge.Proofs.RootBinding

/-!
# Proofs of accounts

A proof of an account joins two inclusion proofs: the account's leaf in the tree over the state,
and each slot in the tree over the storage, whose root is in the leaf. It is computed from the
state at the root that was asked for, never from what the asking view holds.

* `Accounts.proof_proves`: what the answer says of a state can be verified against its root, and
  nothing else can.
* `Service.run_proof`: the request answers so for every root that was committed.
-/

namespace EvmBridge

/-- A clash is among these byte strings: two different ones with the same hash, or one with the
zero hash. -/
def Clash [HashFunction] (xs : List Bytes) : Prop :=
  (∃ x ∈ xs, ∃ y ∈ xs, x ≠ y ∧ hashBytes x = hashBytes y) ∨ ∃ x ∈ xs, hashBytes x = .zero

/-- What a proof has to say of an account to someone who knows the root and sees a view at it. -/
structure ProofAccountResult.Proves (ans : ProofAccountResult) (root : Hash)
    (v : View) (a : Address) (keys : List Hash) : Prop where
  balance : ans.balance = v.balance a
  nonce : ans.nonce = v.nonce a
  codeHash : ans.codeHash = v.codeHash a
  /-- There is an entry for each key, in the order of the keys. -/
  keys : ans.storageProof.map (·.key) = keys
  values : ∀ e ∈ ans.storageProof, e.value = v.storage a e.key
  /-- An account that exists is proved against the root. -/
  account : v.exists? a → MerkleTree.verify root a.bytes
    (Account.leafValue ans.nonce ans.balance ans.codeHash ans.storageHash) ans.accountProof
  /-- A slot that is not zero is proved against the root of the storage. -/
  slots : ∀ e ∈ ans.storageProof, e.value ≠ .zero →
    MerkleTree.verify ans.storageHash e.key.bytes e.value.bytes e.proof
  /-- A slot that is not set cannot be proved to have any value, unless there is a clash between
  what was hashed for the storage and what the verifier hashes. -/
  absent : ∀ key, ((v.account? a).bind (·.storage.get? key)) = none →
    ∀ value path, MerkleTree.verify ans.storageHash key.bytes value path →
      Clash ((((v.account? a).map (·.storageTree.preimages)).getD []) ++
        MerkleTree.climbPreimages key.bytes value path)

namespace Account

theorem get?_storageTree {a : Account} {key value : Hash} (h : a.storage.get? key = some value) :
    a.storageTree.entries.get? key.bytes = some value.bytes := by
  rw [OrdMap.get?_eq_some_iff, storageTree_entries]
  exact List.mem_map.mpr ⟨(key, value), OrdMap.get?_eq_some_iff.mp h, rfl⟩

/-- Only slots that are set can be proved. -/
theorem clash_of_verify [HashFunction] {a : Account} {key : Hash} {value : Bytes}
    {path : List ProofNode}
    (habsent : a.storage.get? key = none)
    (h : MerkleTree.verify a.storageRoot key.bytes value path) :
    Clash (a.storageTree.preimages ++ MerkleTree.climbPreimages key.bytes value path) := by
  refine not_clashFree fun hfree => ?_
  -- without a clash the key has an entry in the tree, so the slot is set after all
  have hshort : key.bytes.length < 2 ^ 32 := by rw [key.size_eq]; decide
  have hmem := MerkleTree.mem_of_verify a.storageTree_short hshort hfree h
  rw [storageTree_entries] at hmem
  obtain ⟨⟨k, v⟩, he, heq⟩ := List.mem_map.mp hmem
  simp only [Prod.mk.injEq] at heq
  have hk : k = key := FixedBytes.ext heq.1
  rw [hk, ← OrdMap.get?_eq_some_iff, habsent] at he
  exact absurd he (by simp)

end Account

namespace Accounts

theorem get?_tree [HashFunction] {accounts : Accounts} {a : Address} {account : Account}
    (h : accounts.get? a = some account) :
    accounts.tree.entries.get? a.bytes = some account.leaf := by
  rw [OrdMap.get?_eq_some_iff, tree_entries]
  exact List.mem_map.mpr ⟨(a, account), OrdMap.get?_eq_some_iff.mp h, rfl⟩

/-- The entry of a slot that is set is proved. -/
theorem storageProof_verifies {account? : Option Account} {key : Hash}
    (hne : (storageProof account? key).value ≠ .zero) :
    MerkleTree.verify ((account?.map Account.storageRoot).getD .zero) key.bytes
      (storageProof account? key).value.bytes (storageProof account? key).proof := by
  unfold storageProof at hne ⊢
  cases account? with
  | none => exact absurd rfl hne
  | some account =>
      simp only [Option.bind_some, Option.map_some, Option.getD_some] at hne ⊢
      cases hget : account.storage.get? key with
      | none =>
          rw [hget] at hne
          exact absurd rfl hne
      | some value =>
          obtain ⟨path, hpath, hverify⟩ :=
            MerkleTree.prove_verifies (Account.get?_storageTree hget)
          rw [hpath]
          exact hverify

/-- **A proof says what the state says, and proves it.** -/
theorem proof_proves (accounts : Accounts) (store : Nat) (a : Address) (keys : List Hash) :
    (accounts.proof a keys).Proves accounts.root { store, accounts } a keys where
  balance := rfl
  nonce := rfl
  codeHash := rfl
  keys := by simp [proof, storageProof, Function.comp_def]
  values e he := by
    obtain ⟨key, _, rfl⟩ := List.mem_map.mp he
    rfl
  account hexists := by
    obtain ⟨account, hget⟩ := Option.isSome_iff_exists.mp hexists
    have hget : accounts.get? a = some account := hget
    obtain ⟨path, hpath, hverify⟩ := MerkleTree.prove_verifies (get?_tree hget)
    simp only [proof, hget, hpath, Option.map_some, Option.getD_some]
    exact hverify
  slots e he hne := by
    obtain ⟨key, _, rfl⟩ := List.mem_map.mp he
    exact storageProof_verifies hne
  absent key habsent value path hverify := by
    have haccount : View.account? { store, accounts } a = accounts.get? a := rfl
    rw [haccount] at habsent ⊢
    simp only [proof] at hverify
    cases hget : accounts.get? a with
    | none =>
        -- the storage of no account has the zero root, to which no climb leads
        rw [hget] at hverify
        refine not_clashFree fun hfree => ?_
        simp only [MerkleTree.verify, decide_eq_true_eq] at hverify
        exact MerkleTree.foldl_climb_ne_zero hfree hverify
    | some account =>
        rw [hget] at habsent hverify
        exact Account.clash_of_verify habsent hverify

end Accounts

namespace Service

/-- **Proofs of accounts are complete and truthful.** Take a store to which states were committed,
none of them with the zero root but the empty one, and a root that was committed. Whatever view
asks and whatever it holds, the proof for an address and some keys is answered and nothing changes;
the root can be opened by each handle of the store; and the answer says of the account what the
view does that is opened, and proves it. -/
theorem run_proof (upcall : Upcall) {w : World} {p : ProofParams} {i : Nat} {As : List Accounts}
    (hview : w.engine.views.find p.handle = .ok i)
    (hstore : (w.store (w.view i).store).Reached As)
    (hzero : ∀ A ∈ As, A.root = .zero → A = ∅) (hroot : ∃ A ∈ As, A.root = p.root) :
    ∃ ans v, run upcall (.proof p) w = (.ok (reply .proof ans), w) ∧
      (w.store (w.view i).store).loadFrom p.root = .ok v.accounts ∧
      ans.Proves p.root v p.address p.storageKeys ∧
      ∀ database, w.engine.stores.find database = .ok (w.view i).store →
        ∃ h w', openView { databaseHandle := database, root := p.root } w = (.ok h, w') ∧
          w'.Shows h v := by
  obtain ⟨A, hA, hp⟩ := hroot
  obtain ⟨B, hload, hB⟩ := hstore.loadFrom_root hA
  have hBroot : B.root = p.root := by
    -- under the zero root nothing but the empty state was committed
    rcases hB with ⟨hz, rfl⟩ | hget
    · rw [← hp, hzero A hA hz]
    · rw [(hstore.of_get? hget).2, hp]
  rw [hp] at hload
  refine ⟨B.proof p.address p.storageKeys, { store := (w.view i).store, accounts := B }, ?_,
    hload, ?_, fun database hfind => openView_eq hfind hload⟩
  · have hfound : findView p.handle w = (.ok i, w) := Act.ofExcept_ok hview
    have hrun : proof p w = (.ok (B.proof p.address p.storageKeys), w) := by
      unfold proof
      rw [Act.bind_ok hfound]
      exact Act.bind_ok (Act.ofExcept_ok hload)
    exact Act.map_ok hrun
  · rw [← hBroot]
    exact Accounts.proof_proves B _ p.address p.storageKeys

/-- A view that holds something else is asked for a state with one account and one slot. -/
theorem run_proof_uncommitted :
    let A : Accounts :=
      .ofList [(.zero, { nonce := 1, storage := .ofList [(.zero, .ofNat 32 7)] })]
    let p : ProofParams :=
      { handle := 1, root := A.root, address := .zero, storageKeys := [.ofNat 32 1, .zero] }
    let w : World := { engine := {
      stores := ({ objects := [{ roots := (∅ : OrdMap Hash Accounts).insert A.root A }] })
      views := (({} : Pool View).add
        { store := 0, accounts := .ofList [(.zero, { nonce := 2 })] }).2 } }
    w.engine.views.find p.handle = .ok 0 ∧ (w.store 0).Reached [A] ∧ A.root ≠ .zero ∧
      ∃ ans, run (fun _ _ w => (none, w)) (.proof p) w = (.ok (reply .proof ans), w) ∧
        ans.nonce = 1 ∧ ans.storageProof.map (·.value) = [.zero, .ofNat 32 7] ∧
        MerkleTree.verify A.root p.address.bytes
          (Account.leafValue ans.nonce ans.balance ans.codeHash ans.storageHash)
          ans.accountProof := by
  intro A p w
  have hview : w.engine.views.find p.handle = .ok 0 := rfl
  have hstored : Store.store {} {} A.root A = .ok (w.store 0, {}) := rfl
  have hstore : (w.store 0).Reached [A] := .committed (.opened rfl) hstored
  have hne : A.root ≠ .zero := by decide +kernel
  obtain ⟨ans, v, hrun, hload, hproves, _⟩ := run_proof (fun _ _ w => (none, w)) hview hstore
    (by simp [hne]) ⟨A, List.mem_singleton_self A, rfl⟩
  have hget : (w.store 0).roots.get? A.root = some A := by
    show ((∅ : OrdMap Hash Accounts).insert A.root A).get? A.root = some A
    rw [OrdMap.get?_insert, if_pos rfl]
  have hv : v.accounts = A := by
    rw [show (w.store (w.view 0).store).loadFrom p.root = .ok A from
      Store.loadFrom_of_ne_zero hne hget] at hload
    exact (Except.ok.inj hload).symm
  have hvalues : ans.storageProof.map (·.value) = p.storageKeys.map (v.storage p.address) := by
    rw [← hproves.keys, List.map_map]
    exact List.map_congr_left hproves.values
  refine ⟨hview, hstore, hne, ans, hrun, ?_, ?_, hproves.account ?_⟩
  · rw [hproves.nonce, View.nonce, View.account?, hv]
    rfl
  · rw [hvalues]
    simp only [p, List.map_cons, List.map_nil, View.storage, View.account?, hv]
    decide +kernel
  · rw [View.exists?, View.account?, hv]
    rfl

end Service

end EvmBridge
