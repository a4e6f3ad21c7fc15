import EvmBridge.State.View

/-!
# Proofs and dumps

What can be shown of a state to someone who has only its root, and what can be shown to a
person.
-/

namespace EvmBridge.Accounts

/-- The proof of a slot of an account, which may be absent. -/
def storageProof (account? : Option Account) (key : Hash) : StorageProof where
  key := key
  value := (account?.bind (·.storage.get? key)).getD .zero
  proof := (account?.bind (·.storageTree.prove key.bytes)).getD []

/-- The proof of an account and of some of its slots. What is absent has an empty path. -/
def proof (accounts : Accounts) (a : Address) (keys : List Hash) : ProofAccountResult :=
  let account? := accounts.get? a
  { address := a
    accountProof := (accounts.tree.prove a.bytes).getD []
    balance := (account?.map (·.balance)).getD 0
    codeHash := (account?.map Account.codeHash).getD .zero
    nonce := (account?.map (·.nonce)).getD 0
    storageHash := (account?.map Account.storageRoot).getD .zero
    storageProof := keys.map (storageProof account?) }

/-- What a dump shows of an account. Without preimages its address is left out. -/
def dumpEntry (preimages : Bool) (a : Address) (account : Account) : Json :=
  let storage := account.storage.toList.map fun e => (e.1.toHex, Json.str e.2.toHex)
  Json.object (
    [("balance", .str (toString account.balance)),
     ("nonce", .nat account.nonce.toNat),
     ("root", .str account.storageRoot.toHex),
     ("codeHash", .str account.codeHash.toHex),
     ("code", .str (Hex.encode account.code)),
     ("storage", Json.object storage)] ++
    if preimages then [("address", .str a.toHex)] else [])

/-- The name of an account in a dump: its address, or without preimages the hash of it. -/
def dumpKey (preimages : Bool) (a : Address) : String :=
  if preimages then a.toHex else (hashBytes a.bytes).toHex

/-- A dump of a state. -/
def dump (accounts : Accounts) (preimages : Bool) : Json :=
  Json.object
    [("root", .str accounts.root.toHex),
     ("accounts", Json.object (accounts.toList.map fun e =>
       (dumpKey preimages e.1, dumpEntry preimages e.1 e.2)))]

end EvmBridge.Accounts
