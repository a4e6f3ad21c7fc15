import EvmBridge.Codec.Record

/-!
# Results with a structure of their own

Proofs, tracer results and log records. A reader of these skips members it does not know, so
that the module may add some; a log record keeps them.
-/

namespace EvmBridge

/-- What a tracer recorded. -/
structure TracerResult where
  /-- The recording, null before the top frame has ended. -/
  result : Json := .null

/-- One step of a proof, from a node to its parent. -/
structure ProofNode where
  /-- The other child of the parent. -/
  sibling : Hash
  /-- Whether the proven node is the left child. -/
  left : Bool
  deriving DecidableEq, Repr

/-- The proof of a storage slot. -/
structure StorageProof where
  key : Hash
  /-- Its value, zero if it is not set. -/
  value : Hash
  /-- The path to the storage root. -/
  proof : List ProofNode := []
  deriving DecidableEq, Repr

/-- The proof of an account and of some of its slots. -/
structure ProofAccountResult where
  address : Address
  accountProof : List ProofNode := []
  balance : Nat
  codeHash : Hash
  nonce : UInt64
  storageHash : Hash
  storageProof : List StorageProof := []
  deriving DecidableEq, Repr

/-- A record of the module's log. -/
structure LogRecord where
  lvl : String
  msg : String := ""
  /-- All other members, sorted by name. -/
  fields : OrdMap String Json := ∅

namespace TracerResult

def codec : Codec TracerResult :=
  .record "TracerResult" .skipped (.defaulted "result" .any .null .done)
    (fun (result, ()) => { result }) (fun r => (r.result, ()))

end TracerResult

namespace ProofNode

def codec : Codec ProofNode :=
  .record "ProofNode" .skipped (.required "sibling" .hash <| .required "left" .bool .done)
    (fun (sibling, left, ()) => { sibling, left }) (fun n => (n.sibling, n.left, ()))

end ProofNode

namespace StorageProof

def codec : Codec StorageProof :=
  .record "StorageProof" .skipped
    (.required "key" .hash <| .required "value" .hash <|
      .defaulted "proof" (.list ProofNode.codec) [] .done)
    (fun (key, value, proof, ()) => { key, value, proof })
    (fun p => (p.key, p.value, p.proof, ()))

end StorageProof

namespace ProofAccountResult

def codec : Codec ProofAccountResult :=
  .record "ProofAccountResult" .skipped
    (.required "address" .address <|
      .defaulted "accountProof" (.list ProofNode.codec) [] <|
      .required "balance" .quantity <| .required "codeHash" .hash <|
      .required "nonce" .quantityWord <| .required "storageHash" .hash <|
      .defaulted "storageProof" (.list StorageProof.codec) [] .done)
    (fun (address, accountProof, balance, codeHash, nonce, storageHash, storageProof, ()) =>
      { address, accountProof, balance, codeHash, nonce, storageHash, storageProof })
    (fun p => (p.address, p.accountProof, p.balance, p.codeHash, p.nonce, p.storageHash,
      p.storageProof, ()))

end ProofAccountResult

namespace LogRecord

/-- The two members with a meaning of their own, and all others. -/
structure Parts where
  lvl : Option String := none
  msg : Option String := none
  fields : OrdMap String Json := ∅

def Parts.put {δ : Type} (get : Fields.Reading δ) (p : Parts) (name : String) (d : δ) :
    Except Json.Fault Parts :=
  if name = "lvl" then
    if p.lvl.isSome then .error (.duplicateField name)
    else do .ok { p with lvl := some (← get .text d) }
  else if name = "msg" then
    if p.msg.isSome then .error (.duplicateField name)
    else do .ok { p with msg := some (← get .text d) }
  else do .ok { p with fields := p.fields.insert name (← get .any d) }

/-- Reads the members from the front. -/
def Parts.read (depth : Nat) : Parts → List (Doc × Doc) → Except Json.Fault Parts
  | p, [] => .ok p
  | p, (.str (some name), d) :: rest => do
    Parts.read depth (← p.put (fun c d => c.read depth d) name d) rest
  | _, _ :: _ => .error .malformed

def Parts.take : Parts → List (String × Json) → Except Json.Fault Parts
  | p, [] => .ok p
  | p, (name, v) :: rest => do Parts.take (← p.put (fun c v => c.ofJson v) name v) rest

/-- The record, once all members were read. -/
def Parts.build (p : Parts) : Except Json.Fault LogRecord :=
  match p.lvl with
  | none => .error (.missingField "lvl")
  | some lvl => .ok { lvl, msg := p.msg.getD "", fields := p.fields }

/-- How a record stands in JSON. It is an object, never an array. -/
def codec : Codec LogRecord where
  read depth d := match d, depth with
    | .obj _ _, 0 => .error .malformed
    | .obj members closed, depth + 1 => do
      let p ← Parts.read depth {} members
      if closed then p.build else .error .malformed
    | d, _ => .error (d.mismatch "struct LogRecord")
  ofJson v := match v with
    | .obj members => do (← Parts.take {} members).build
    | v => .error (Codec.mismatch v "struct LogRecord")
  toJson r := .obj (("lvl", .str r.lvl) :: ("msg", .str r.msg) :: r.fields.toList)

end LogRecord

end EvmBridge
