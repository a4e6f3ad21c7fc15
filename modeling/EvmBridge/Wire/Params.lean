import EvmBridge.Wire.Context
import EvmBridge.Wire.Invocation

/-!
# Arguments of methods

Every method with arguments takes one record. Records refuse members they do not know, so that
a caller who misspells a name hears of it.
-/

namespace EvmBridge

/-! ## Stores and views -/

structure DatabaseParams where
  databaseHandle : Handle
  deriving DecidableEq, Repr

/-- Names a store on disk. -/
structure LevelDbParams where
  path : String
  /-- Whether dumps show plain addresses. -/
  preimages : Bool := false
  deriving DecidableEq, Repr

/-- Names a state of a store. -/
structure StateParams where
  databaseHandle : Handle
  root : Hash
  deriving DecidableEq, Repr

structure HandleParams where
  handle : Handle
  deriving DecidableEq, Repr

/-- Names an account of a view. -/
structure AccountParams where
  handle : Handle
  address : Address
  deriving DecidableEq, Repr

/-- An amount for an account. -/
structure BalanceParams where
  handle : Handle
  address : Address
  amount : Nat
  deriving DecidableEq, Repr

/-- A nonce for an account. -/
structure NonceParams where
  handle : Handle
  address : Address
  nonce : UInt64
  deriving DecidableEq, Repr

/-- Code for an account. -/
structure CodeParams where
  handle : Handle
  address : Address
  code : Bytes
  deriving DecidableEq, Repr

/-- Names a storage slot. -/
structure StorageParams where
  handle : Handle
  address : Address
  key : Hash
  deriving DecidableEq, Repr

/-- A value for a storage slot; nothing or zero removes it. -/
structure SetStorageParams where
  handle : Handle
  address : Address
  key : Hash
  value : Option Hash := none
  deriving DecidableEq, Repr

/-- Names a revision of a view. -/
structure SnapshotParams where
  handle : Handle
  revisionId : Int32
  deriving DecidableEq, Repr

/-- Names a file to dump a view into. -/
structure DumpParams where
  handle : Handle
  dumpFile : String
  deriving DecidableEq, Repr

/-- Asks for a proof of an account and of some of its slots. -/
structure ProofParams where
  handle : Handle
  address : Address
  /-- The root of a committed state. -/
  root : Hash
  storageKeys : List Hash := []
  deriving DecidableEq, Repr

/-- Who takes part in a transaction, for its access list. -/
structure AccessParams where
  handle : Handle
  address : Address
  /-- The destination; nobody for a creation. -/
  destination : Option Address := none
  /-- Who receives the fees. -/
  coinbase : Address
  rules : ForkRules := {}
  deriving DecidableEq, Repr

/-- Names a slot of the access list. -/
structure SlotParams where
  handle : Handle
  address : Address
  slot : Hash
  deriving DecidableEq, Repr

/-- An invocation to apply. -/
structure EvmParams where
  handle : Handle
  invocation : Invocation
  context : EvmContext
  deriving DecidableEq, Repr

namespace DatabaseParams

def codec : Codec DatabaseParams :=
  .record "DatabaseParams" .refused (.required "databaseHandle" .int32 .done)
    (fun (databaseHandle, ()) => { databaseHandle }) (fun p => (p.databaseHandle, ()))

end DatabaseParams

namespace LevelDbParams

def codec : Codec LevelDbParams :=
  .record "LevelDbParams" .refused
    (.required "path" .text <| .defaulted "preimages" .bool false .done)
    (fun (path, preimages, ()) => { path, preimages }) (fun p => (p.path, p.preimages, ()))

end LevelDbParams

namespace StateParams

def codec : Codec StateParams :=
  .record "StateParams" .refused
    (.required "databaseHandle" .int32 <| .required "root" .hash .done)
    (fun (databaseHandle, root, ()) => { databaseHandle, root })
    (fun p => (p.databaseHandle, p.root, ()))

end StateParams

namespace HandleParams

def codec : Codec HandleParams :=
  .record "HandleParams" .refused (.required "handle" .int32 .done)
    (fun (handle, ()) => { handle }) (fun p => (p.handle, ()))

end HandleParams

namespace AccountParams

def codec : Codec AccountParams :=
  .record "AccountParams" .refused
    (.required "handle" .int32 <| .required "address" .address .done)
    (fun (handle, address, ()) => { handle, address }) (fun p => (p.handle, p.address, ()))

end AccountParams

namespace BalanceParams

def codec : Codec BalanceParams :=
  .record "BalanceParams" .refused
    (.required "handle" .int32 <| .required "address" .address <|
      .required "amount" .quantity .done)
    (fun (handle, address, amount, ()) => { handle, address, amount })
    (fun p => (p.handle, p.address, p.amount, ()))

end BalanceParams

namespace NonceParams

def codec : Codec NonceParams :=
  .record "NonceParams" .refused
    (.required "handle" .int32 <| .required "address" .address <|
      .required "nonce" .quantityWord .done)
    (fun (handle, address, nonce, ()) => { handle, address, nonce })
    (fun p => (p.handle, p.address, p.nonce, ()))

end NonceParams

namespace CodeParams

def codec : Codec CodeParams :=
  .record "CodeParams" .refused
    (.required "handle" .int32 <| .required "address" .address <|
      .required "code" .bytes .done)
    (fun (handle, address, code, ()) => { handle, address, code })
    (fun p => (p.handle, p.address, p.code, ()))

end CodeParams

namespace StorageParams

def codec : Codec StorageParams :=
  .record "StorageParams" .refused
    (.required "handle" .int32 <| .required "address" .address <| .required "key" .hash .done)
    (fun (handle, address, key, ()) => { handle, address, key })
    (fun p => (p.handle, p.address, p.key, ()))

end StorageParams

namespace SetStorageParams

def codec : Codec SetStorageParams :=
  .record "SetStorageParams" .refused
    (.required "handle" .int32 <| .required "address" .address <| .required "key" .hash <|
      .defaulted "value" (.optional .hash) none .done)
    (fun (handle, address, key, value, ()) => { handle, address, key, value })
    (fun p => (p.handle, p.address, p.key, p.value, ()))

end SetStorageParams

namespace SnapshotParams

def codec : Codec SnapshotParams :=
  .record "SnapshotParams" .refused
    (.required "handle" .int32 <| .required "revisionId" .int32 .done)
    (fun (handle, revisionId, ()) => { handle, revisionId })
    (fun p => (p.handle, p.revisionId, ()))

end SnapshotParams

namespace DumpParams

def codec : Codec DumpParams :=
  .record "DumpParams" .refused
    (.required "handle" .int32 <| .required "dumpFile" .text .done)
    (fun (handle, dumpFile, ()) => { handle, dumpFile }) (fun p => (p.handle, p.dumpFile, ()))

end DumpParams

namespace ProofParams

def codec : Codec ProofParams :=
  .record "ProofParams" .refused
    (.required "handle" .int32 <| .required "address" .address <| .required "root" .hash <|
      .defaulted "storageKeys" (.list .hash) [] .done)
    (fun (handle, address, root, storageKeys, ()) => { handle, address, root, storageKeys })
    (fun p => (p.handle, p.address, p.root, p.storageKeys, ()))

end ProofParams

namespace AccessParams

def codec : Codec AccessParams :=
  .record "AccessParams" .refused
    (.required "handle" .int32 <| .required "address" .address <|
      .defaulted "destination" (.optional .address) none <| .required "coinbase" .address <|
      .defaulted "rules" ForkRules.codec {} .done)
    (fun (handle, address, destination, coinbase, rules, ()) =>
      { handle, address, destination, coinbase, rules })
    (fun p => (p.handle, p.address, p.destination, p.coinbase, p.rules, ()))

end AccessParams

namespace SlotParams

def codec : Codec SlotParams :=
  .record "SlotParams" .refused
    (.required "handle" .int32 <| .required "address" .address <| .required "slot" .hash .done)
    (fun (handle, address, slot, ()) => { handle, address, slot })
    (fun p => (p.handle, p.address, p.slot, ()))

end SlotParams

namespace EvmParams

def codec : Codec EvmParams :=
  .record "EvmParams" .refused
    (.required "handle" .int32 <| .required "invocation" Invocation.codec <|
      .required "context" EvmContext.codec .done)
    (fun (handle, invocation, context, ()) => { handle, invocation, context })
    (fun p => (p.handle, p.invocation, p.context, ()))

end EvmParams

end EvmBridge
