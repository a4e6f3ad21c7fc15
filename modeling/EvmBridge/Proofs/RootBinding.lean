import EvmBridge.Proofs.HashTree
import EvmBridge.Proofs.InsertionHistory

/-!
# A root commits to the whole state

The root of a state is a tree over the leaves of its accounts, and each leaf holds the root of
another tree, over the storage of the account. Equal roots therefore force equal states in two
rounds: the tree over the accounts gives the addresses and the leaves, the leaf gives nonce,
balance, hash of the code and root of the storage, and these two give the code and the storage.

Each round can fail only by a clash among the byte strings that were hashed for the two roots.
`Accounts.preimages` lists them, so `root_binding` does not merely say that some clash exists but
where one is to be found. It holds for every hash function.
-/

namespace EvmBridge

/-- Lists with the same images are equal if the map tells their members apart. -/
theorem eq_of_map_eq {α β : Type} {f : α → β} {l l' : List α}
    (hf : ∀ a ∈ l, ∀ b ∈ l', f a = f b → a = b) (h : l.map f = l'.map f) : l = l' := by
  induction l generalizing l' with
  | nil => simpa using h
  | cons a l ih =>
      cases l' with
      | nil => simp at h
      | cons b l' =>
          simp only [List.map_cons, List.cons.injEq] at h
          rw [hf a List.mem_cons_self b List.mem_cons_self h.1,
            ih (fun x hx y hy =>
              hf x (List.mem_cons_of_mem _ hx) y (List.mem_cons_of_mem _ hy)) h.2]

namespace MerkleTree

/-- **A tree filled in key order has the entries it was filled with.** Byte strings of one length
are ordered as keys like they are ordered as addresses or hashes. -/
theorem entries_fill {n : Nat} {β : Type} (m : OrdMap (FixedBytes n) β) (value : β → Bytes) :
    (m.toList.foldl (fun t e => t.insert e.1.bytes (value e.2)) ({} : MerkleTree)).entries.toList =
      m.toList.map fun e => (e.1.bytes, value e.2) := by
  have hinc : Increasing (m.toList.map fun e => (e.1.bytes, value e.2)) := by
    unfold Increasing
    rw [List.pairwise_map]
    exact m.increasing
  have hfold := entries_insertAll {} (m.toList.map fun e => (e.1.bytes, value e.2))
  rw [insertAll, List.foldl_map] at hfold
  rw [hfold]
  exact OrdMap.toList_ofList hinc

/-- Keys of one length are short enough if that length is. -/
theorem short_of_entries {n : Nat} {β : Type} {t : MerkleTree} {l : List (FixedBytes n × β)}
    {value : β → Bytes} (hn : n < 2 ^ 32)
    (h : t.entries.toList = l.map fun e => (e.1.bytes, value e.2)) : t.Short := by
  intro e he
  rw [h] at he
  obtain ⟨e', _, rfl⟩ := List.mem_map.mp he
  rw [e'.1.size_eq]
  exact hn

end MerkleTree

namespace Account

theorem storageTree_entries (a : Account) :
    a.storageTree.entries.toList = a.storage.toList.map fun e => (e.1.bytes, e.2.bytes) :=
  MerkleTree.entries_fill a.storage FixedBytes.bytes

theorem storageTree_short (a : Account) : a.storageTree.Short :=
  MerkleTree.short_of_entries (by decide) a.storageTree_entries

end Account

section

variable [HashFunction]

namespace Account

/-- The byte strings that are hashed for the leaf of an account. -/
def preimages (a : Account) : List Bytes := a.code :: a.storageTree.preimages

/-- The root of a storage commits to the storage. -/
theorem storage_eq_of_root_eq {a b : Account}
    (hfree : ClashFree (a.storageTree.preimages ++ b.storageTree.preimages))
    (h : a.storageRoot = b.storageRoot) : a.storage = b.storage := by
  have ht := MerkleTree.eq_of_root_eq a.storageTree_short b.storageTree_short hfree h
  have hl : (a.storage.toList.map fun e => (e.1.bytes, e.2.bytes)) =
      b.storage.toList.map fun e => (e.1.bytes, e.2.bytes) := by
    rw [← storageTree_entries, ← storageTree_entries, ht]
  have hl : a.storage.toList = b.storage.toList := by
    refine eq_of_map_eq ?_ hl
    rintro ⟨k, v⟩ _ ⟨k', v'⟩ _ he
    simp only [Prod.mk.injEq] at he ⊢
    exact ⟨FixedBytes.ext he.1, FixedBytes.ext he.2⟩
  exact OrdMap.ext_toList hl

/-- **A leaf commits to the whole account.** -/
theorem eq_of_leaf_eq {a b : Account} (hfree : ClashFree (a.preimages ++ b.preimages))
    (h : a.leaf = b.leaf) : a = b := by
  obtain ⟨hnonce, hbalance, hcode, hroot⟩ := leafValue_inj h
  have hcode : a.code = b.code :=
    hfree.inj _ (by simp [preimages]) _ (by simp [preimages]) hcode
  have hstorage : a.storage = b.storage := by
    refine storage_eq_of_root_eq (hfree.mono fun x hx => ?_) hroot
    simp only [preimages, List.mem_append, List.mem_cons] at hx ⊢
    rcases hx with hx | hx <;> simp [hx]
  cases a; cases b
  simp_all

end Account

namespace Accounts

theorem tree_entries (accounts : Accounts) :
    accounts.tree.entries.toList = accounts.toList.map fun e => (e.1.bytes, e.2.leaf) :=
  MerkleTree.entries_fill accounts Account.leaf

theorem tree_short (accounts : Accounts) : accounts.tree.Short :=
  MerkleTree.short_of_entries (by decide) accounts.tree_entries

/-- The byte strings that are hashed for the root of a state. -/
def preimages (accounts : Accounts) : List Bytes :=
  accounts.tree.preimages ++ accounts.toList.flatMap fun e => e.2.preimages

/-- A root without clashes belongs to one state only. -/
theorem eq_of_root_eq {A B : Accounts} (hfree : ClashFree (A.preimages ++ B.preimages))
    (h : A.root = B.root) : A = B := by
  -- first round: the tree over the accounts
  have htree : A.tree = B.tree := by
    refine MerkleTree.eq_of_root_eq A.tree_short B.tree_short (hfree.mono fun x hx => ?_) h
    simp only [preimages, List.mem_append] at hx ⊢
    rcases hx with hx | hx <;> simp [hx]
  have hl : (A.toList.map fun e => (e.1.bytes, e.2.leaf)) =
      B.toList.map fun e => (e.1.bytes, e.2.leaf) := by
    rw [← tree_entries, ← tree_entries, htree]
  refine OrdMap.ext_toList (eq_of_map_eq ?_ hl)
  -- second round: each leaf, whose account has preimages of its own
  rintro ⟨a, acc⟩ hA ⟨b, acc'⟩ hB he
  simp only [Prod.mk.injEq] at he ⊢
  refine ⟨FixedBytes.ext he.1, Account.eq_of_leaf_eq (hfree.mono fun x hx => ?_) he.2⟩
  simp only [preimages, List.mem_append, List.mem_flatMap] at hx ⊢
  rcases hx with hx | hx
  · exact Or.inl (Or.inr ⟨_, hA, hx⟩)
  · exact Or.inr (Or.inr ⟨_, hB, hx⟩)

/-- **State roots are binding.** Two states with the same root are the same state, or a clash is
among the byte strings that were hashed for the two roots: two different ones with the same hash,
or one with the zero hash, which the empty tree has. -/
theorem root_binding {A B : Accounts} (h : A.root = B.root) :
    A = B ∨
    (∃ x ∈ A.preimages ++ B.preimages, ∃ y ∈ A.preimages ++ B.preimages,
      x ≠ y ∧ hashBytes x = hashBytes y) ∨
    ∃ x ∈ A.preimages ++ B.preimages, hashBytes x = .zero := by
  by_cases hfree : ClashFree (A.preimages ++ B.preimages)
  · exact Or.inl (eq_of_root_eq hfree h)
  · exact Or.inr (not_clashFree hfree)

end Accounts

end

namespace Accounts

/-- If all byte strings have one hash, two accounts with different code have one root, and the
clash is found. -/
theorem root_binding_constant :
    let _ : HashFunction := ⟨fun _ => .ofNat 32 1⟩
    let A : Accounts := .ofList [(.zero, { code := [1] })]
    let B : Accounts := .ofList [(.zero, { code := [2] })]
    A.root = B.root ∧ ∃ x ∈ A.preimages ++ B.preimages, ∃ y ∈ A.preimages ++ B.preimages,
      x ≠ y ∧ hashBytes x = hashBytes y := by
  intro _ A B
  have hroot : A.root = B.root := by
    simp only [root, MerkleTree.root, MerkleTree.leaves, tree_entries]
    rfl
  refine ⟨hroot, ?_⟩
  rcases root_binding hroot with he | hc | ⟨x, _, hz⟩
  · exact absurd he (by decide)
  · exact hc
  · have hne : (FixedBytes.ofNat 32 1 : Hash) ≠ .zero := by decide
    exact absurd hz hne

end Accounts

end EvmBridge
