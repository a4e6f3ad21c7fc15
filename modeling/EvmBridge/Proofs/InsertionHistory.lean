import EvmBridge.Merkle
import EvmBridge.Proofs.SortedMap

/-!
# How a tree came about does not show

A tree that was filled by insertions answers a key with the last value that was inserted for it
(`MerkleTree.get?_insertAll`). Nothing else of the insertions is left: trees with the same answers
are equal (`insertAll_eq_iff`), because their entries are in key order, and root and proofs are made
from the entries alone.
-/

namespace EvmBridge.MerkleTree

variable {t : MerkleTree} {es es' : List (Bytes × Bytes)} {key value : Bytes}

/-- The tree after some insertions of a key and a value, the earliest first. -/
def insertAll (t : MerkleTree) (es : List (Bytes × Bytes)) : MerkleTree :=
  es.foldl (fun t e => t.insert e.1 e.2) t

theorem ext_entries {s t : MerkleTree} (h : s.entries = t.entries) : s = t := by
  cases s
  cases t
  exact congrArg MerkleTree.mk h

theorem entries_insertAll (t : MerkleTree) (es : List (Bytes × Bytes)) :
    (t.insertAll es).entries = es.foldl (fun m e => m.insert e.1 e.2) t.entries := by
  induction es generalizing t with
  | nil => rfl
  | cons e es ih => exact ih (t.insert e.1 e.2)

/-- The last value counts. -/
theorem get?_insertAll (es : List (Bytes × Bytes)) (key : Bytes) :
    (insertAll {} es).entries.get? key = es.reverse.lookup key := by
  rw [entries_insertAll]
  exact OrdMap.get?_ofList (l := es)

/-- **Two series of insertions make the same tree if and only if they leave the same values.** -/
theorem insertAll_eq_iff :
    insertAll {} es = insertAll {} es' ↔ ∀ key, es.reverse.lookup key = es'.reverse.lookup key := by
  constructor
  · intro h key
    rw [← get?_insertAll, ← get?_insertAll, h]
  · intro h
    refine ext_entries (OrdMap.ext_get? fun key => ?_)
    rw [get?_insertAll, get?_insertAll, h]

theorem insert_eq_self_iff : t.insert key value = t ↔ t.entries.get? key = some value := by
  rw [← OrdMap.insert_eq_self_iff]
  exact ⟨congrArg entries, ext_entries⟩

/-- **A tree does not tell how it was filled.** If two series of insertions leave the same last
value for every key, no matter in which order and how often keys were inserted, then the trees have
the same root, and prove every key in the same way; both answer every key with that last value. An
insertion changes nothing if and only if the key has the value already. -/
theorem insertion_history [HashFunction]
    (hlast : ∀ key, es.reverse.lookup key = es'.reverse.lookup key) :
    ((insertAll {} es).root = (insertAll {} es').root ∧
      ∀ key, (insertAll {} es).prove key = (insertAll {} es').prove key) ∧
    (∀ key, (insertAll {} es).entries.get? key = es.reverse.lookup key ∧
      (insertAll {} es').entries.get? key = es.reverse.lookup key) ∧
    ∀ (t : MerkleTree) (key value : Bytes),
      t.insert key value = t ↔ t.entries.get? key = some value := by
  have heq : insertAll {} es = insertAll {} es' := insertAll_eq_iff.mpr hlast
  refine ⟨⟨by rw [heq], fun key => by rw [heq]⟩, fun key => ?_,
    fun t key value => insert_eq_self_iff⟩
  rw [← heq, get?_insertAll]
  exact ⟨rfl, rfl⟩

/-- A key comes back with another value, and is the beginning of another key. -/
theorem insertion_history_repeated :
    let es : List (Bytes × Bytes) := [([1], [10]), ([1, 2], [20]), ([1], [30]), ([], [40])]
    let es' : List (Bytes × Bytes) := [([], [40]), ([1], [30]), ([1, 2], [0]), ([1, 2], [20])]
    let root : Hash :=
      .ofNat 32 0x71e2a9df97d81bc5c3750c117a48170d3626289aa7e38f3bbac7b8426bc0e0f7
    (∀ key, es.reverse.lookup key = es'.reverse.lookup key) ∧
      (insertAll {} es).root = root ∧ (insertAll {} es').root = root ∧
      (insertAll {} es).prove [1] = (insertAll {} es').prove [1] ∧
      (insertAll {} es').entries.get? [1] = some [30] ∧
      (insertAll {} es).insert [1] [30] = insertAll {} es := by
  intro es es' root
  have hlast : ∀ key, es.reverse.lookup key = es'.reverse.lookup key := by
    intro key
    by_cases hnil : key = []
    · subst hnil
      decide
    · by_cases hone : key = [1]
      · subst hone
        decide
      · by_cases htwo : key = [1, 2]
        · subst htwo
          decide
        · simp [es, es', List.lookup_cons, beq_false_of_ne hnil, beq_false_of_ne hone,
            beq_false_of_ne htwo]
  obtain ⟨⟨hroot, hprove⟩, hget, hsame⟩ := insertion_history hlast
  have hpinned : (insertAll {} es).root = root := by decide +kernel
  exact ⟨hlast, hpinned, hroot ▸ hpinned, hprove [1], (hget [1]).2,
    (hsame _ _ _).mpr (hget [1]).1⟩

end EvmBridge.MerkleTree
