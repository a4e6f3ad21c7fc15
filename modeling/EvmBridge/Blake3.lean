import EvmBridge.FixedBytes

/-!
# BLAKE3

The 256-bit hash of a byte string. The input is cut into chunks of 1024 bytes, each chunk is
compressed block by block, and the chaining values of the chunks are joined in a binary tree
whose left subtrees are complete. Nothing else in the library looks inside: all that matters
about the hash is that it is a function, and trees and roots are defined for any `HashFunction`.
-/

namespace EvmBridge.Blake3

/-- Sixteen or eight words. -/
abbrev Words := Array UInt32

/-- The initial chaining value. -/
def iv : Words :=
  #[0x6A09E667, 0xBB67AE85, 0x3C6EF372, 0xA54FF53A, 0x510E527F, 0x9B05688C, 0x1F83D9AB, 0x5BE0CD19]

/-- Where each word of a block goes between two rounds. -/
def permutation : Array Nat := #[2, 6, 3, 10, 7, 0, 4, 13, 1, 11, 12, 5, 9, 14, 15, 8]

/-- The first block of a chunk. -/
def chunkStart : UInt32 := 1
/-- The last block of a chunk. -/
def chunkEnd : UInt32 := 2
/-- A node above two others. -/
def parentNode : UInt32 := 4
/-- The node that gives the hash. -/
def rootNode : UInt32 := 8

def blockSize : Nat := 64
def chunkSize : Nat := 1024

def rotr (x : UInt32) (k : UInt32) : UInt32 := (x >>> k) ||| (x <<< (32 - k))

/-- The quarter round on the words at `a`, `b`, `c`, `d`. -/
def mix (v : Words) (a b c d : Nat) (x y : UInt32) : Words :=
  let va := v[a]! + v[b]! + x
  let vd := rotr (v[d]! ^^^ va) 16
  let vc := v[c]! + vd
  let vb := rotr (v[b]! ^^^ vc) 12
  let va := va + vb + y
  let vd := rotr (vd ^^^ va) 8
  let vc := vc + vd
  let vb := rotr (vb ^^^ vc) 7
  (((v.set! a va).set! b vb).set! c vc).set! d vd

/-- One round: the four columns, then the four diagonals. -/
def round (v m : Words) : Words :=
  let v := mix v 0 4 8 12 m[0]! m[1]!
  let v := mix v 1 5 9 13 m[2]! m[3]!
  let v := mix v 2 6 10 14 m[4]! m[5]!
  let v := mix v 3 7 11 15 m[6]! m[7]!
  let v := mix v 0 5 10 15 m[8]! m[9]!
  let v := mix v 1 6 11 12 m[10]! m[11]!
  let v := mix v 2 7 8 13 m[12]! m[13]!
  mix v 3 4 9 14 m[14]! m[15]!

/-- The block as the next round sees it. -/
def permute (m : Words) : Words := permutation.map fun i => m[i]!

/-- This many rounds. -/
def rounds : (n : Nat) → (v m : Words) → Words
  | 0, v, _ => v
  | n + 1, v, m => rounds n (round v m) (permute m)

/-- A compression that is still to be done: its chaining value, block, counter, block length
and flags. -/
structure Node where
  /-- The chaining value that goes in. -/
  cv : Words
  /-- The block, as sixteen words. -/
  block : Words
  /-- The number of the chunk. -/
  counter : Nat
  /-- The number of bytes in the block. -/
  size : Nat
  /-- What kind of node it is. -/
  flags : UInt32

/-- The chaining value that comes out. -/
def Node.chain (n : Node) : Words :=
  let v := n.cv ++ iv.take 4 ++
    #[UInt32.ofNat n.counter, UInt32.ofNat (n.counter / UInt32.size), UInt32.ofNat n.size, n.flags]
  let v := rounds 7 v n.block
  (Array.range 8).map fun i => v[i]! ^^^ v[i + 8]!

/-- Up to 64 bytes as sixteen words, least significant byte first, filled up with zeros. -/
def wordsOf (bs : Bytes) : Words :=
  let b := bs.toArray
  (Array.range 16).map fun i =>
    let byte k := (b.getD (4 * i + k) 0).toUInt32
    byte 0 ||| (byte 1 <<< 8) ||| (byte 2 <<< 16) ||| (byte 3 <<< 24)

/-- The bytes of words, least significant byte first. -/
def bytesOf (ws : Words) : Bytes :=
  ws.toList.flatMap fun w => Bytes.littleEndian 4 w.toNat

/-- The last compression of a chunk, whose blocks before it are already compressed. -/
def chunkNode (counter : Nat) (cv : Words) (flags : UInt32) (bs : Bytes) : Node :=
  if blockSize < bs.length then
    let node : Node := ⟨cv, wordsOf (bs.take blockSize), counter, blockSize, flags⟩
    chunkNode counter node.chain 0 (bs.drop blockSize)
  else ⟨cv, wordsOf bs, counter, bs.length, flags ||| chunkEnd⟩
termination_by bs.length
decreasing_by simp [blockSize] at *; omega

/-- The greatest power of two below `n`, times a chunk. -/
def leftSize (n : Nat) : Nat := chunkSize * Nat.pow 2 ((n - 1) / chunkSize).log2

theorem leftSize_pos (n : Nat) : 0 < leftSize n :=
  Nat.mul_pos (by decide) (Nat.two_pow_pos _)

theorem leftSize_lt {n : Nat} (h : chunkSize < n) : leftSize n < n := by
  have hq : (n - 1) / chunkSize ≠ 0 := by
    simp only [chunkSize] at h ⊢
    omega
  have hle : Nat.pow 2 ((n - 1) / chunkSize).log2 ≤ (n - 1) / chunkSize := Nat.log2_self_le hq
  have hmul := Nat.mul_le_mul_left chunkSize hle
  have hdiv := Nat.mul_div_le (n - 1) chunkSize
  unfold leftSize
  omega

/-- The top node over bytes that begin with this chunk. -/
def tree (counter : Nat) (bs : Bytes) : Node :=
  if h : chunkSize < bs.length then
    let k := leftSize bs.length
    have : 0 < k := leftSize_pos bs.length
    have : k < bs.length := leftSize_lt h
    let left := (tree counter (bs.take k)).chain
    let right := (tree (counter + k / chunkSize) (bs.drop k)).chain
    ⟨iv, left ++ right, 0, blockSize, parentNode⟩
  else chunkNode counter iv chunkStart bs
termination_by bs.length
decreasing_by all_goals simp; omega

def digest (bs : Bytes) : Bytes :=
  let node := tree 0 bs
  bytesOf { node with flags := node.flags ||| rootNode }.chain

theorem size_chain (n : Node) : n.chain.size = 8 := by simp [Node.chain]

theorem length_bytesOf (ws : Words) : (bytesOf ws).length = 4 * ws.size := by
  have h (l : List UInt32) :
      (l.flatMap fun w => Bytes.littleEndian 4 w.toNat).length = 4 * l.length := by
    induction l with
    | nil => rfl
    | cons w l ih => simp [ih]; omega
  simp [bytesOf, h]

theorem length_digest (bs : Bytes) : (digest bs).length = 32 := by
  simp [digest, length_bytesOf, size_chain]

end EvmBridge.Blake3

namespace EvmBridge

/-- A way to hash byte strings. What roots and proofs are worth does not depend on which one. -/
class HashFunction where
  hash : Bytes → Hash

/-- The one in use. -/
instance blake3 : HashFunction := ⟨fun bs => ⟨Blake3.digest bs, Blake3.length_digest bs⟩⟩

def hashBytes [HashFunction] (bs : Bytes) : Hash := HashFunction.hash bs

end EvmBridge
