import EvmBridge.Blake3
import EvmBridge.Wire.Results

/-!
# Merkle trees over sorted entries

A tree is a finite map of byte strings. Its entries are hashed in key order, and each level is
hashed pair by pair into the next; an odd node at the end moves up unchanged. Leaves and inner
nodes are told apart by their first byte, so neither can stand for the other. The empty tree has
the zero root.

* `root` commits to the entries.
* `prove` gives the path of an entry, `verify` checks one.
-/

namespace EvmBridge

/-- The entries a root commits to. -/
structure MerkleTree where
  entries : OrdMap Bytes Bytes := ∅
  deriving DecidableEq

namespace MerkleTree

variable [HashFunction]

/-- The hash of an entry: a zero byte, the length of the key in four bytes, the key, the
value. -/
def hashLeaf (key value : Bytes) : Hash :=
  hashBytes (0 :: (Bytes.littleEndian 4 key.length ++ key ++ value))

/-- The hash of an inner node: a one byte and both children. -/
def hashInner (left right : Hash) : Hash :=
  hashBytes (1 :: (left.bytes ++ right.bytes))

/-- The next level: pairs are hashed, an odd node moves up. -/
def nextLevel : List Hash → List Hash
  | left :: right :: rest => hashInner left right :: nextLevel rest
  | level => level

theorem length_nextLevel (level : List Hash) :
    (nextLevel level).length = (level.length + 1) / 2 := by
  fun_induction nextLevel level with
  | case1 left right rest ih => simp [ih]; omega
  | case2 level h =>
    match level, h with
    | [], _ => rfl
    | [_], _ => simp
    | a :: b :: r, h => exact absurd rfl (h a b r)

/-- The node above a level. -/
def rootOf (level : List Hash) : Hash :=
  match level with
  | [] => .zero
  | [node] => node
  | a :: b :: rest => rootOf (nextLevel (a :: b :: rest))
termination_by level.length
decreasing_by simp [length_nextLevel]; omega

/-- The path from the node at `index` up to the root: its sibling on each level that has one. -/
def pathOf (level : List Hash) (index : Nat) : List ProofNode :=
  match level with
  | [] => []
  | [_] => []
  | a :: b :: rest =>
    let level := a :: b :: rest
    let left := index % 2 = 0
    let above := pathOf (nextLevel level) (index / 2)
    match level[if left then index + 1 else index - 1]? with
    | some sibling => { sibling, left } :: above
    | none => above
termination_by level.length
decreasing_by simp [length_nextLevel]; omega

def insert (t : MerkleTree) (key value : Bytes) : MerkleTree :=
  ⟨t.entries.insert key value⟩

def size (t : MerkleTree) : Nat := t.entries.size

/-- The hashes of the entries, in key order. -/
def leaves (t : MerkleTree) : List Hash := t.entries.toList.map fun e => hashLeaf e.1 e.2

/-- The root, zero for the empty tree. -/
def root (t : MerkleTree) : Hash := rootOf t.leaves

/-- The path that proves the entry of a key. -/
def prove (t : MerkleTree) (key : Bytes) : Option (List ProofNode) := do
  let index ← t.entries.keys.findIdx? (· = key)
  some (pathOf t.leaves index)

/-- The node above a node and its sibling. -/
def climb (node : Hash) (step : ProofNode) : Hash :=
  if step.left then hashInner node step.sibling else hashInner step.sibling node

/-- Whether a path leads from an entry to a root. -/
def verify (root : Hash) (key value : Bytes) (path : List ProofNode) : Bool :=
  path.foldl climb (hashLeaf key value) = root

end MerkleTree

end EvmBridge
