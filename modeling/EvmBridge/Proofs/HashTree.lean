import EvmBridge.Proofs.Encoding
import EvmBridge.Proofs.InsertionHistory

/-!
# The tree behind a root

`MerkleTree.root` works on levels of hashes and keeps no tree. Here the tree is kept: `HashTree`
has the entries at its leaves, in key order from left to right, and the root is the hash at its
top. Nothing is lost on the way up: an odd node that moves up unchanged is simply a subtree that
hangs higher.

What is gained is a place to look for a collision. The `preimages` of a tree are the byte strings
that are hashed on the way to its root, and two different trees with the same hash have two
different preimages with the same hash (`eq_of_hash_eq`). That is worth more than the mere
existence of a collision, which every function into 32 bytes has.
-/

namespace EvmBridge

/-- A tree with entries at its leaves. -/
inductive HashTree where
  /-- An entry. -/
  | leaf (key value : Bytes)
  /-- A pair of subtrees. -/
  | inner (left right : HashTree)

namespace HashTree

/-- The entries, from left to right. -/
def entries : HashTree → List (Bytes × Bytes)
  | leaf key value => [(key, value)]
  | inner left right => left.entries ++ right.entries

/-- The keys are short enough for their lengths to fit into four bytes. -/
def Short (t : HashTree) : Prop := ∀ e ∈ t.entries, e.1.length < 2 ^ 32

/-- The next level: pairs become trees, an odd tree moves up. -/
def pairUp : List HashTree → List HashTree
  | left :: right :: rest => inner left right :: pairUp rest
  | level => level

theorem length_pairUp (level : List HashTree) :
    (pairUp level).length = (level.length + 1) / 2 := by
  induction level using pairUp.induct with
  | case1 left right rest ih => simp only [pairUp, List.length_cons, ih]; omega
  | case2 level h =>
      match level, h with
      | [], _ => rfl
      | [_], _ => simp [pairUp]
      | a :: b :: r, h => exact absurd rfl (h a b r)

/-- The one tree above a level; none above nothing. -/
def above : List HashTree → Option HashTree
  | [] => none
  | [t] => some t
  | a :: b :: rest => above (pairUp (a :: b :: rest))
termination_by level => level.length
decreasing_by simp [length_pairUp]; omega

theorem entries_pairUp (level : List HashTree) :
    (pairUp level).flatMap entries = level.flatMap entries := by
  induction level using pairUp.induct with
  | case1 left right rest ih => simp [pairUp, ih, entries]
  | case2 level h => rw [pairUp]; exact h

theorem entries_above (level : List HashTree) :
    ((above level).map entries).getD [] = level.flatMap entries := by
  induction level using above.induct with
  | case1 => simp [above]
  | case2 t => simp [above]
  | case3 a b rest ih => rw [above, ih, entries_pairUp]

end HashTree

namespace MerkleTree

/-- The tree behind the root; the empty tree has none. -/
def hashTree (t : MerkleTree) : Option HashTree :=
  HashTree.above (t.entries.toList.map fun e => .leaf e.1 e.2)

theorem entries_hashTree (t : MerkleTree) :
    (t.hashTree.map HashTree.entries).getD [] = t.entries.toList := by
  rw [hashTree, HashTree.entries_above, List.flatMap_map]
  simp [HashTree.entries]

theorem eq_of_hashTree_eq {s t : MerkleTree} (h : s.hashTree = t.hashTree) : s = t := by
  refine ext_entries (OrdMap.ext_toList ?_)
  rw [← entries_hashTree, ← entries_hashTree, h]

/-- The keys are short enough for their lengths to fit into four bytes. -/
def Short (t : MerkleTree) : Prop := ∀ e ∈ t.entries.toList, e.1.length < 2 ^ 32

theorem short_hashTree {t : MerkleTree} {n : HashTree} (ht : t.Short) (hn : t.hashTree = some n) :
    n.Short := by
  have he := entries_hashTree t
  rw [hn] at he
  intro e hmem
  refine ht e ?_
  rw [← he]
  exact hmem

end MerkleTree

variable [HashFunction]

/-! ## Clashes -/

/-- No two of these byte strings have the same hash, and none has the zero hash. -/
structure ClashFree (xs : List Bytes) : Prop where
  /-- Different byte strings have different hashes. -/
  inj : ∀ x ∈ xs, ∀ y ∈ xs, hashBytes x = hashBytes y → x = y
  /-- The zero hash stands for nothing but the empty tree. -/
  nonzero : ∀ x ∈ xs, hashBytes x ≠ .zero

theorem ClashFree.mono {xs ys : List Bytes} (h : ClashFree ys) (hsub : ∀ x ∈ xs, x ∈ ys) :
    ClashFree xs :=
  ⟨fun x hx y hy => h.inj x (hsub x hx) y (hsub y hy), fun x hx => h.nonzero x (hsub x hx)⟩

/-- Byte strings that are not free of clashes show one. -/
theorem not_clashFree {xs : List Bytes} (h : ¬ ClashFree xs) :
    (∃ x ∈ xs, ∃ y ∈ xs, x ≠ y ∧ hashBytes x = hashBytes y) ∨ ∃ x ∈ xs, hashBytes x = .zero := by
  by_cases hz : ∃ x ∈ xs, hashBytes x = .zero
  · exact Or.inr hz
  · refine Or.inl (Classical.byContradiction fun hc => h ⟨?_, fun x hx he => hz ⟨x, hx, he⟩⟩)
    intro x hx y hy he
    exact Classical.byContradiction fun hne => hc ⟨x, hx, y, hy, hne, he⟩

namespace HashTree

/-! ## The hashes of a tree are those of its levels -/

/-- The hash at the top. -/
def hash : HashTree → Hash
  | leaf key value => MerkleTree.hashLeaf key value
  | inner left right => MerkleTree.hashInner left.hash right.hash

/-- The byte string that is hashed at the top. -/
def preimage : HashTree → Bytes
  | leaf key value => 0 :: (Bytes.littleEndian 4 key.length ++ key ++ value)
  | inner left right => 1 :: (left.hash.bytes ++ right.hash.bytes)

/-- All byte strings that are hashed. -/
def preimages : HashTree → List Bytes
  | leaf key value => [preimage (leaf key value)]
  | inner left right => preimage (inner left right) :: (left.preimages ++ right.preimages)

theorem hashBytes_preimage (t : HashTree) : hashBytes t.preimage = t.hash := by
  cases t <;> rfl

theorem preimage_mem (t : HashTree) : t.preimage ∈ t.preimages := by
  cases t <;> simp [preimages]

theorem map_hash_pairUp (level : List HashTree) :
    (pairUp level).map hash = MerkleTree.nextLevel (level.map hash) := by
  induction level using pairUp.induct with
  | case1 left right rest ih => simp [pairUp, MerkleTree.nextLevel, ih, hash]
  | case2 level h =>
      match level, h with
      | [], _ => rfl
      | [_], _ => rfl
      | a :: b :: r, h => exact absurd rfl (h a b r)

theorem rootOf_map_hash (level : List HashTree) :
    MerkleTree.rootOf (level.map hash) = ((above level).map hash).getD .zero := by
  induction level using above.induct with
  | case1 => simp [above, MerkleTree.rootOf]
  | case2 t => simp [above, MerkleTree.rootOf]
  | case3 a b rest ih =>
      rw [above, ← ih, map_hash_pairUp]
      simp only [List.map_cons]
      rw [MerkleTree.rootOf]

/-! ## Equal hashes -/

/-- The length in front of a key says where the key ends. -/
theorem preimage_leaf_inj {k k' v v' : Bytes} (hk : k.length < 2 ^ 32) (hk' : k'.length < 2 ^ 32)
    (h : (leaf k v).preimage = (leaf k' v').preimage) : k = k' ∧ v = v' := by
  simp only [preimage, List.cons.injEq, true_and, List.append_assoc] at h
  obtain ⟨hlen, h⟩ := List.append_inj h (by simp)
  have hlen := Bytes.littleEndian_inj hk hk' hlen
  exact List.append_inj h hlen

/-- **Trees with the same hash are equal, unless their preimages clash.** A leaf never has the
preimage of an inner node, so the shapes agree all the way down. -/
theorem eq_of_hash_eq {s t : HashTree} (hs : s.Short) (ht : t.Short)
    (hfree : ClashFree (s.preimages ++ t.preimages)) (h : s.hash = t.hash) : s = t := by
  induction s generalizing t with
  | leaf k v =>
      -- the first byte of the preimage tells a leaf from an inner node
      have hp := hfree.inj _ (List.mem_append_left _ (preimage_mem _)) _
        (List.mem_append_right _ (preimage_mem t))
        (by rw [hashBytes_preimage, hashBytes_preimage, h])
      cases t with
      | leaf k' v' =>
          obtain ⟨rfl, rfl⟩ := preimage_leaf_inj (hs (k, v) (by simp [entries]))
            (ht (k', v') (by simp [entries])) hp
          rfl
      | inner l r => simp [preimage] at hp
  | inner l r ihl ihr =>
      have hp := hfree.inj _ (List.mem_append_left _ (preimage_mem _)) _
        (List.mem_append_right _ (preimage_mem t))
        (by rw [hashBytes_preimage, hashBytes_preimage, h])
      cases t with
      | leaf k' v' => simp [preimage] at hp
      | inner l' r' =>
          simp only [preimage, List.cons.injEq, true_and] at hp
          -- both hashes have 32 bytes, so the halves agree one by one
          obtain ⟨hl, hr⟩ := List.append_inj hp (by rw [l.hash.size_eq, l'.hash.size_eq])
          have hsub : ∀ x, x ∈ l.preimages ++ l'.preimages ∨ x ∈ r.preimages ++ r'.preimages →
              x ∈ (inner l r).preimages ++ (inner l' r').preimages := by
            intro x hx
            simp only [preimages, List.mem_append, List.mem_cons] at hx ⊢
            rcases hx with (hx | hx) | (hx | hx) <;> simp [hx]
          rw [ihl (fun e he => hs e (List.mem_append_left _ he))
              (fun e he => ht e (List.mem_append_left _ he))
              (hfree.mono fun x hx => hsub x (Or.inl hx)) (FixedBytes.ext hl),
            ihr (fun e he => hs e (List.mem_append_right _ he))
              (fun e he => ht e (List.mem_append_right _ he))
              (hfree.mono fun x hx => hsub x (Or.inr hx)) (FixedBytes.ext hr)]

end HashTree

namespace MerkleTree

/-! ## Merkle trees -/

/-- The byte strings that are hashed for the root. -/
def preimages (t : MerkleTree) : List Bytes := (t.hashTree.map HashTree.preimages).getD []

theorem root_eq (t : MerkleTree) : t.root = (t.hashTree.map HashTree.hash).getD .zero := by
  rw [hashTree, ← HashTree.rootOf_map_hash, root, leaves, List.map_map]
  rfl

/-- A tree with an entry does not have the zero root, unless its preimages clash. -/
theorem root_ne_zero {t : MerkleTree} {n : HashTree} (hfree : ClashFree t.preimages)
    (hn : t.hashTree = some n) : n.hash ≠ .zero := by
  rw [← HashTree.hashBytes_preimage]
  refine hfree.nonzero _ ?_
  rw [preimages, hn]
  exact n.preimage_mem

/-- **A root commits to the entries, unless the preimages clash.** -/
theorem eq_of_root_eq {s t : MerkleTree} (hs : s.Short) (ht : t.Short)
    (hfree : ClashFree (s.preimages ++ t.preimages)) (h : s.root = t.root) : s = t := by
  have hfs : ClashFree s.preimages := hfree.mono fun x hx => List.mem_append_left _ hx
  have hft : ClashFree t.preimages := hfree.mono fun x hx => List.mem_append_right _ hx
  rw [root_eq, root_eq] at h
  refine eq_of_hashTree_eq ?_
  cases hm : s.hashTree with
  | none =>
      cases hn : t.hashTree with
      | none => rfl
      | some n =>
          rw [hm, hn] at h
          exact absurd h.symm (root_ne_zero hft hn)
  | some m =>
      cases hn : t.hashTree with
      | none =>
          rw [hm, hn] at h
          exact absurd h (root_ne_zero hfs hm)
      | some n =>
          rw [hm, hn] at h
          rw [preimages, preimages, hm, hn] at hfree
          rw [HashTree.eq_of_hash_eq (short_hashTree hs hm) (short_hashTree ht hn) hfree h]

end MerkleTree

end EvmBridge
