import EvmBridge.Codec.Record
import EvmBridge.Merkle

/-!
# Accounts and the root of a state

A state is a finite map from addresses to accounts. Its root is the Merkle root over the
accounts, each of which commits to its code by a hash and to its storage by a root of its own.
-/

namespace EvmBridge

structure Account where
  /-- How many invocations it has made. -/
  nonce : UInt64 := 0
  balance : Nat := 0
  /-- Its code; empty for an account without a contract. -/
  code : Bytes := []
  /-- Its storage; a slot that is absent holds zero. -/
  storage : OrdMap Hash Hash := ∅
  deriving DecidableEq

/-- A state: the accounts by address. -/
abbrev Accounts := OrdMap Address Account

variable [HashFunction]

namespace Account

instance : Inhabited Account := ⟨{}⟩

/-- Zero nonce, zero balance and no code. The storage of such an account does not count. -/
def isEmpty (a : Account) : Bool := a.nonce = 0 && a.balance = 0 && a.code = []

def codeHash (a : Account) : Hash := hashBytes a.code

def storageTree (a : Account) : MerkleTree :=
  a.storage.toList.foldl (fun t e => t.insert e.1.bytes e.2.bytes) {}

def storageRoot (a : Account) : Hash := a.storageTree.root

/-- What the tree over the accounts holds for one of them: the nonce in eight bytes, the hash of
the code, the root of the storage, and the balance in as many bytes as it takes. -/
def leafValue (nonce : UInt64) (balance : Nat) (codeHash storageRoot : Hash) : Bytes :=
  Bytes.bigEndian 8 nonce.toNat ++ codeHash.bytes ++ storageRoot.bytes ++ Bytes.ofNat balance

def leaf (a : Account) : Bytes := leafValue a.nonce a.balance a.codeHash a.storageRoot

def codec : Codec Account :=
  .record "Account" .skipped
    (.required "nonce" .word64 <| .required "balance" .quantity <| .defaulted "code" .bytes [] <|
      .defaulted "storage" (.map (FixedBytes.parse 32) FixedBytes.toHex .hash) ∅ .done)
    (fun (nonce, balance, code, storage, ()) => { nonce, balance, code, storage })
    (fun a => (a.nonce, a.balance, a.code, a.storage, ()))

end Account

namespace Accounts

def tree (accounts : Accounts) : MerkleTree :=
  accounts.toList.foldl (fun t e => t.insert e.1.bytes e.2.leaf) {}

def root (accounts : Accounts) : Hash := (tree accounts).root

/-- The state without its empty accounts. -/
def pruned (accounts : Accounts) : Accounts := accounts.filter fun _ a => !a.isEmpty

def codec : Codec Accounts := .map (FixedBytes.parse 20) FixedBytes.toHex Account.codec

end Accounts

/-- Whether an address is one of the nine that stand for built-in contracts. -/
def isPrecompile (a : Address) : Bool :=
  match a.bytes.drop 19 with
  | [b] => (a.bytes.take 19).all (· = 0) && 1 ≤ b && b ≤ 9
  | _ => false

/-- The addresses of the built-in contracts. -/
def precompiles : List Address := (List.range 9).map fun i => FixedBytes.ofNat 20 (i + 1)

end EvmBridge
