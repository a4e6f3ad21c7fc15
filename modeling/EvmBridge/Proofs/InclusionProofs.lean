import EvmBridge.Proofs.HashTree
import Mathlib.Data.List.Induction

/-!
# Inclusion proofs

`MerkleTree.prove` gives a path, `MerkleTree.verify` climbs it from the entry up to the root.

* Whatever is in a tree can be proved, and nothing else (`prove_complete`): on each level the path
  holds the sibling of the node that was reached, and a node without a sibling moves up as it is.
* Whatever verifies is in the tree (`verify_sound`), however the path was made, unless two byte
  strings that were hashed for the root or by the verifier clash. `climbPreimages` lists what the
  verifier hashes, so the clash is located.
-/

namespace EvmBridge.MerkleTree

/-! ## What is in a tree can be proved -/

section

variable [HashFunction]

/-- The index of the other child of the same parent. -/
def siblingIndex (index : Nat) : Nat := if index % 2 = 0 then index + 1 else index - 1

/-- A node of the next level is a node joined with its sibling, or alone if it has none. -/
theorem nextLevel_getElem? {level : List Hash} {index : Nat} {node : Hash}
    (h : level[index]? = some node) :
    (nextLevel level)[index / 2]? = some (level[siblingIndex index]?.elim node fun sibling =>
      climb node { sibling, left := index % 2 = 0 }) := by
  induction level using nextLevel.induct generalizing index with
  | case1 left right rest ih =>
      rw [nextLevel]
      rcases index with _ | _ | index
      · cases h; rfl
      · cases h; rfl
      · have hsibling : siblingIndex (index + 2) = siblingIndex index + 2 := by
          unfold siblingIndex
          split <;> split <;> omega
        have hhalf : (index + 2) / 2 = index / 2 + 1 := by omega
        have hside : (index + 1 + 1) % 2 = index % 2 := by omega
        rw [hsibling, hhalf, hside]
        exact ih h
  | case2 level hshort =>
      -- at most one node is left
      rcases level with _ | ⟨top, _ | ⟨b, rest⟩⟩
      · exact absurd h (by simp)
      · rcases index with _ | index
        · cases h; rfl
        · exact absurd h (by simp)
      · exact absurd rfl (hshort top b rest)

/-- The path of a node: its sibling if it has one, then the path of the node above. -/
theorem pathOf_pair (a b : Hash) (rest : List Hash) (index : Nat) :
    pathOf (a :: b :: rest) index =
      ((a :: b :: rest)[siblingIndex index]?.map fun sibling =>
        { sibling, left := index % 2 = 0 : ProofNode }).toList ++
      pathOf (nextLevel (a :: b :: rest)) (index / 2) := by
  rw [pathOf]
  unfold siblingIndex
  split <;> rename_i hs <;> rw [hs] <;> rfl

/-- **The path of a node leads to the root.** -/
theorem foldl_climb_pathOf {level : List Hash} {index : Nat} {node : Hash}
    (h : level[index]? = some node) :
    (pathOf level index).foldl climb node = rootOf level := by
  induction level using rootOf.induct generalizing index node with
  | case1 => exact absurd h (by simp)
  | case2 top =>
      cases index with
      | zero => cases h; simp [pathOf, rootOf]
      | succ index => exact absurd h (by simp)
  | case3 a b rest ih =>
      have hup := nextLevel_getElem? h
      rw [pathOf_pair, rootOf]
      cases hs : (a :: b :: rest)[siblingIndex index]? <;> rw [hs] at hup <;> exact ih hup

theorem exists_index {t : MerkleTree} {key value : Bytes} (h : t.entries.get? key = some value) :
    ∃ index, t.entries.keys.findIdx? (· = key) = some index ∧
      t.leaves[index]? = some (hashLeaf key value) := by
  have hmem := OrdMap.get?_eq_some_iff.mp h
  have hkey : key ∈ t.entries.keys := List.mem_map_of_mem hmem
  cases hi : t.entries.keys.findIdx? (· = key) with
  | none =>
      have hne := List.findIdx?_eq_none_iff.mp hi key hkey
      simp at hne
  | some index =>
      refine ⟨index, rfl, ?_⟩
      obtain ⟨hlt, hk, _⟩ := List.findIdx?_eq_some_iff_getElem.mp hi
      simp only [OrdMap.keys, List.getElem_map, decide_eq_true_eq, List.length_map] at hk hlt
      -- the key at the index is bound to one value only
      have hat := List.getElem_mem hlt
      have hvalue : t.entries.toList[index].2 = value := by
        have hget : t.entries.get? key = some t.entries.toList[index].2 :=
          OrdMap.get?_eq_some_iff.mpr (by rw [← hk]; exact hat)
        rw [h] at hget
        exact (Option.some.inj hget).symm
      rw [leaves, List.getElem?_map, List.getElem?_eq_getElem hlt]
      simp [hk, hvalue]

/-- **Whatever is in a tree can be proved.** -/
theorem prove_verifies {t : MerkleTree} {key value : Bytes}
    (h : t.entries.get? key = some value) :
    ∃ path, t.prove key = some path ∧ verify t.root key value path := by
  obtain ⟨index, hindex, hleaf⟩ := exists_index h
  refine ⟨pathOf t.leaves index, by simp [prove, hindex], ?_⟩
  rw [verify, foldl_climb_pathOf hleaf, root]
  simp

theorem prove_eq_none_iff {t : MerkleTree} {key : Bytes} :
    t.prove key = none ↔ t.entries.get? key = none := by
  constructor
  · intro hprove
    refine Option.eq_none_iff_forall_ne_some.mpr fun value hget => ?_
    obtain ⟨path, hpath, _⟩ := prove_verifies hget
    rw [hprove] at hpath
    exact absurd hpath (by simp)
  · intro hget
    cases hi : t.entries.keys.findIdx? (· = key) with
    | none => simp [prove, hi]
    | some index =>
        -- the key at that index is in the tree after all
        obtain ⟨hlt, hkey, _⟩ := List.findIdx?_eq_some_iff_getElem.mp hi
        have hmem := List.getElem_mem hlt
        rw [decide_eq_true_eq.mp hkey] at hmem
        obtain ⟨⟨k, value⟩, hentry, rfl⟩ := List.mem_map.mp hmem
        rw [OrdMap.get?_eq_some_iff.mpr hentry] at hget
        exact absurd hget (by simp)

/-- **Proofs are complete.** In a tree of any size, a key that is in it is proved with its value,
and a key that is not in it is not proved at all. -/
theorem prove_complete (t : MerkleTree) (key : Bytes) :
    (∀ value, t.entries.get? key = some value →
      ∃ path, t.prove key = some path ∧ verify t.root key value path) ∧
    (t.prove key = none ↔ t.entries.get? key = none) :=
  ⟨fun _ => prove_verifies, prove_eq_none_iff⟩

end

/-- The third of three nodes moves up alone. -/
theorem prove_complete_three :
    let t := (({} : MerkleTree).insert [1] [10]).insert [2] [20] |>.insert [3] [30]
    let sibling : Hash :=
      .ofNat 32 0xfb2762c50c8c0626559ebd1e38606abe2bc7fa4af4052c399e4858a36b945732
    let root : Hash :=
      .ofNat 32 0x895bbd1a1532afc7ae7008e2e211e967a7ec72d39cea01bdf19231846bbefcbd
    t.root = root ∧ t.prove [3] = some [{ sibling, left := false }] ∧
      verify root [3] [30] [{ sibling, left := false }] ∧ t.prove [4] = none := by
  intro t sibling root
  have hpath : t.prove [3] = some [{ sibling, left := false }] := by decide +kernel
  obtain ⟨path, hprove, hverify⟩ := (prove_complete t [3]).1 [30] (by decide)
  obtain rfl : path = [{ sibling, left := false }] :=
    Option.some.inj (hprove.symm.trans hpath)
  have hroot : t.root = root := (of_decide_eq_true hverify).symm.trans (by decide +kernel)
  exact ⟨hroot, hpath, hroot ▸ hverify, (prove_complete t [4]).2.mpr (by decide)⟩

/-! ## Whatever verifies is in the tree -/

section

variable [HashFunction]

/-- The byte string that is hashed in one step up. -/
def climbPreimage (node : Hash) (step : ProofNode) : Bytes :=
  if step.left then 1 :: (node.bytes ++ step.sibling.bytes)
  else 1 :: (step.sibling.bytes ++ node.bytes)

/-- The byte strings that are hashed on the way up. -/
def trail (node : Hash) : List ProofNode → List Bytes
  | [] => []
  | step :: path => climbPreimage node step :: trail (climb node step) path

/-- All byte strings that the verifier hashes. -/
def climbPreimages (key value : Bytes) (path : List ProofNode) : List Bytes :=
  (HashTree.leaf key value).preimage :: trail (hashLeaf key value) path

theorem hashBytes_climbPreimage (node : Hash) (step : ProofNode) :
    hashBytes (climbPreimage node step) = climb node step := by
  unfold climbPreimage climb
  split <;> rfl

theorem trail_append (node : Hash) (path : List ProofNode) (step : ProofNode) :
    trail node (path ++ [step]) =
      trail node path ++ [climbPreimage (path.foldl climb node) step] := by
  induction path generalizing node with
  | nil => rfl
  | cons first path ih => simp [trail, ih]

/-- A climb that ends at the top of a tree began at one of its leaves. The induction goes down from
the root: a step up from `node` can only have come from a child. -/
theorem mem_entries_of_climb {n : HashTree} {key value : Bytes} {path : List ProofNode}
    (hn : n.Short) (hkey : key.length < 2 ^ 32)
    (hfree : ClashFree (n.preimages ++ climbPreimages key value path))
    (h : path.foldl climb (hashLeaf key value) = n.hash) : (key, value) ∈ n.entries := by
  have htop : n.preimage ∈ n.preimages ++ climbPreimages key value path :=
    List.mem_append_left _ n.preimage_mem
  induction path using List.reverseRecOn generalizing n with
  | nil =>
      -- no step was made, so the top of the tree is the leaf itself
      have hp : (HashTree.leaf key value).preimage = n.preimage := by
        refine hfree.inj _ (List.mem_append_right _ List.mem_cons_self) _ htop ?_
        rw [HashTree.hashBytes_preimage, HashTree.hashBytes_preimage]
        exact h
      cases n with
      | leaf k v =>
          have hvalid := hn (k, v) (by simp [HashTree.entries])
          obtain ⟨rfl, rfl⟩ := HashTree.preimage_leaf_inj hkey hvalid hp
          simp [HashTree.entries]
      | inner l r => simp [HashTree.preimage] at hp
  | append_singleton path step ih =>
      rw [List.foldl_append, List.foldl_cons, List.foldl_nil] at h
      simp only [climbPreimages, trail_append] at hfree htop
      -- the last step hashed what the top hashes, so one of its children was reached before
      have hp : climbPreimage (path.foldl climb (hashLeaf key value)) step = n.preimage := by
        refine hfree.inj _ (by simp) _ htop ?_
        rw [hashBytes_climbPreimage, HashTree.hashBytes_preimage]
        exact h
      have hsub : ∀ {m : HashTree}, (∀ x ∈ m.preimages, x ∈ n.preimages) →
          ClashFree (m.preimages ++ climbPreimages key value path) := by
        intro m hm
        refine hfree.mono fun x hx => ?_
        simp only [climbPreimages, List.mem_append, List.mem_cons] at hx ⊢
        rcases hx with hx | hx | hx
        · exact Or.inl (hm x hx)
        · exact Or.inr (Or.inl hx)
        · exact Or.inr (Or.inr (Or.inl hx))
      cases n with
      | leaf k v =>
          unfold climbPreimage at hp
          split at hp <;> simp [HashTree.preimage] at hp
      | inner l r =>
          unfold climbPreimage at hp
          split at hp
          · simp only [HashTree.preimage, List.cons.injEq, true_and] at hp
            have hl := (List.append_inj hp (by rw [FixedBytes.size_eq, FixedBytes.size_eq])).1
            have hmem := ih (n := l) (fun e he => hn e (List.mem_append_left _ he))
              (hsub fun x hx => by simp [HashTree.preimages, hx]) (FixedBytes.ext hl)
              (List.mem_append_left _ l.preimage_mem)
            exact List.mem_append_left _ hmem
          · simp only [HashTree.preimage, List.cons.injEq, true_and] at hp
            have hr := (List.append_inj hp (by rw [FixedBytes.size_eq, FixedBytes.size_eq])).2
            have hmem := ih (n := r) (fun e he => hn e (List.mem_append_right _ he))
              (hsub fun x hx => by simp [HashTree.preimages, hx]) (FixedBytes.ext hr)
              (List.mem_append_left _ r.preimage_mem)
            exact List.mem_append_right _ hmem

theorem foldl_climb_ne_zero {key value : Bytes} {path : List ProofNode}
    (hfree : ClashFree (climbPreimages key value path)) :
    path.foldl climb (hashLeaf key value) ≠ .zero := by
  induction path using List.reverseRecOn with
  | nil =>
      refine fun h => hfree.nonzero _ List.mem_cons_self ?_
      rw [HashTree.hashBytes_preimage]
      exact h
  | append_singleton path step _ =>
      rw [List.foldl_append, List.foldl_cons, List.foldl_nil, ← hashBytes_climbPreimage]
      refine hfree.nonzero _ ?_
      simp [climbPreimages, trail_append]

/-- **Whatever verifies is in the tree**, whatever path was offered, unless the preimages clash. -/
theorem mem_of_verify {t : MerkleTree} {key value : Bytes} {path : List ProofNode}
    (ht : t.Short) (hkey : key.length < 2 ^ 32)
    (hfree : ClashFree (t.preimages ++ climbPreimages key value path))
    (h : verify t.root key value path) : (key, value) ∈ t.entries.toList := by
  simp only [verify, decide_eq_true_eq, root_eq] at h
  rw [← entries_hashTree]
  cases hn : t.hashTree with
  | none =>
      rw [hn] at h
      exact absurd h (foldl_climb_ne_zero (hfree.mono fun x hx => List.mem_append_right _ hx))
  | some n =>
      rw [hn] at h
      rw [preimages, hn] at hfree
      exact mem_entries_of_climb (short_hashTree ht hn) hkey hfree h

/-- **Proofs are sound.** If any list of steps at all leads from a key and a value to the root of a
tree, and keys are no longer than their lengths can tell, then the tree holds the key with this
value. Otherwise a clash is found among the byte strings that were hashed for the root or by the
verifier: two different ones with the same hash, or one with the zero hash. -/
theorem verify_sound {t : MerkleTree} {key value : Bytes} {path : List ProofNode}
    (ht : ∀ e ∈ t.entries.toList, e.1.length < 2 ^ 32) (hkey : key.length < 2 ^ 32)
    (h : verify t.root key value path = true) :
    t.entries.get? key = some value ∨
    (∃ x ∈ t.preimages ++ climbPreimages key value path,
      ∃ y ∈ t.preimages ++ climbPreimages key value path, x ≠ y ∧ hashBytes x = hashBytes y) ∨
    ∃ x ∈ t.preimages ++ climbPreimages key value path, hashBytes x = .zero := by
  by_cases hfree : ClashFree (t.preimages ++ climbPreimages key value path)
  · exact .inl (OrdMap.get?_eq_some_iff.mpr (mem_of_verify ht hkey hfree h))
  · exact .inr (not_clashFree hfree)

end

/-- If all byte strings have one hash, an inner node is passed off as the parent of a leaf that is
not there, and the clash is found. -/
theorem verify_sound_constant :
    let _ : HashFunction := ⟨fun _ => .ofNat 32 1⟩
    let t := (({} : MerkleTree).insert [1] [10]).insert [2] [20]
    let path : List ProofNode := [{ sibling := .zero, left := true }]
    let hashed := t.preimages ++ climbPreimages [3] [30] path
    verify t.root [3] [30] path = true ∧ t.entries.get? [3] = none ∧
      ∃ x ∈ hashed, ∃ y ∈ hashed, x ≠ y ∧ hashBytes x = hashBytes y := by
  intro _ t path hashed
  have hroot : t.root = .ofNat 32 1 := by
    have hleaves : t.leaves = [hashLeaf [1] [10], hashLeaf [2] [20]] := rfl
    rw [root, hleaves]
    simp only [rootOf, nextLevel]
    rfl
  have hverify : verify t.root [3] [30] path = true := by
    rw [hroot]
    decide
  refine ⟨hverify, by decide, ?_⟩
  rcases verify_sound (by decide) (by decide) hverify with hget | hclash | ⟨x, _, hzero⟩
  · exact absurd hget (by decide)
  · exact hclash
  · have hne : (FixedBytes.ofNat 32 1 : Hash) ≠ .zero := by decide
    exact absurd hzero hne

end EvmBridge.MerkleTree
