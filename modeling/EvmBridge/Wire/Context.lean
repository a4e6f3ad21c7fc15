import EvmBridge.Codec.Record

/-!
# Execution contexts and tracer options

The context of an apply describes the block it runs in, the callbacks that answer for the host,
and the tracer that records it. What a context leaves out the executor fills in.
-/

namespace EvmBridge

/-- The fork points that are active. -/
structure ForkRules where
  isShanghai : Bool := false
  deriving DecidableEq, Repr

/-- The context of an apply. -/
structure EvmContext where
  chainID : UInt64 := 0
  /-- Who receives the fees. -/
  coinbase : Address := .zero
  /-- The gas limit of the block; zero counts as absent. -/
  gasLimit : UInt64 := 0
  gasPrice : Option Nat := none
  blockNumber : Option Nat := none
  /-- The time of the block, in seconds. -/
  time : Option Nat := none
  baseFee : Option Nat := none
  random : Hash := .zero
  rules : ForkRules := {}
  /-- The callback that answers block-hash lookups. -/
  blockHashCallback : Option Handle := none
  /-- The tracer that records the apply. -/
  tracer : Option Handle := none
  /-- The addresses whose calls the host executes. -/
  externalContracts : List Address := []
  /-- The callback that executes them. -/
  externalCallback : Option Handle := none
  /-- The call depth of the outermost frame. -/
  initialDepth : UInt32 := 0
  deriving DecidableEq, Repr

/-- The options of a tracer. -/
structure TraceOptions where
  enableMemory : Bool := false
  disableStack : Bool := false
  disableStorage : Bool := false
  enableReturnData : Bool := false
  /-- The name of a tracer; empty for the struct logger. -/
  tracer : String := ""
  /-- The configuration of a named tracer. -/
  tracerConfig : Option Json := none

/-- The kind of a call frame. -/
inductive OpCode where
  | call
  /-- A call of foreign code in the caller's account. -/
  | callCode
  /-- A call of foreign code that also keeps the caller's caller. -/
  | delegateCall
  /-- A call that must not write. -/
  | staticCall
  | create
  /-- A creation at an address fixed by its code. -/
  | create2
  deriving DecidableEq, Repr, Inhabited

namespace ForkRules

def codec : Codec ForkRules :=
  .record "ForkRules" .refused (.required "isShanghai" .bool .done)
    (fun (isShanghai, ()) => { isShanghai }) (fun r => (r.isShanghai, ()))

end ForkRules

namespace EvmContext

def codec : Codec EvmContext :=
  .record "EvmContext" .refused
    (.required "chainID" .quantityWord <|
      .required "coinbase" .address <|
      .required "gasLimit" .quantityWord <|
      .defaulted "gasPrice" (.optional .quantity) none <|
      .defaulted "blockNumber" (.optional .quantity) none <|
      .defaulted "time" (.optional .quantity) none <|
      .defaulted "baseFee" (.optional .quantity) none <|
      .required "random" .hash <|
      .defaulted "rules" ForkRules.codec {} <|
      .defaulted "blockHashCallback" (.optional .int32) none <|
      .defaulted "tracer" (.optional .int32) none <|
      .defaulted "externalContracts" (.list .address) [] <|
      .defaulted "externalCallback" (.optional .int32) none <|
      .defaulted "initialDepth" .word32 0 .done)
    (fun (chainID, coinbase, gasLimit, gasPrice, blockNumber, time, baseFee, random, rules,
        blockHashCallback, tracer, externalContracts, externalCallback, initialDepth, ()) =>
      { chainID, coinbase, gasLimit, gasPrice, blockNumber, time, baseFee, random, rules,
        blockHashCallback, tracer, externalContracts, externalCallback, initialDepth })
    (fun c => (c.chainID, c.coinbase, c.gasLimit, c.gasPrice, c.blockNumber, c.time, c.baseFee,
      c.random, c.rules, c.blockHashCallback, c.tracer, c.externalContracts, c.externalCallback,
      c.initialDepth, ()))

end EvmContext

namespace TraceOptions

/-- How tracer options stand in JSON; an empty name and an absent configuration are not
written. -/
def codec : Codec TraceOptions :=
  .record "TraceOptions" .refused
    (.defaulted "enableMemory" .bool false <|
      .defaulted "disableStack" .bool false <|
      .defaulted "disableStorage" .bool false <|
      .defaulted "enableReturnData" .bool false <|
      .omitted "tracer" .text "" String.isEmpty <|
      .omitted "tracerConfig" (.optional .any) none Option.isNone .done)
    (fun (enableMemory, disableStack, disableStorage, enableReturnData, tracer, tracerConfig,
        ()) =>
      { enableMemory, disableStack, disableStorage, enableReturnData, tracer, tracerConfig })
    (fun o => (o.enableMemory, o.disableStack, o.disableStorage, o.enableReturnData, o.tracer,
      o.tracerConfig, ()))

end TraceOptions

namespace OpCode

def all : List OpCode := [.call, .callCode, .delegateCall, .staticCall, .create, .create2]

def name : OpCode → String
  | .call => "CALL"
  | .callCode => "CALLCODE"
  | .delegateCall => "DELEGATECALL"
  | .staticCall => "STATICCALL"
  | .create => "CREATE"
  | .create2 => "CREATE2"

/-- The kind of this name. -/
def ofName (s : String) : Except Json.Fault OpCode :=
  match all.find? (·.name = s) with
  | some c => .ok c
  | none => .error (.unknownVariant s (all.map name))

/-- Reads the one member `name: null` of an object. What is no text is no name. -/
def readMember (members : List (Doc × Doc)) (closed : Bool) : Except Json.Fault OpCode :=
  match members with
  | (.str (some k), v) :: rest => do
    let c ← ofName k
    Codec.unit.read 0 v
    if rest.isEmpty && closed then .ok c else .error .malformed
  | _ => .error .malformed

/-- How a kind of call frame stands in JSON: its name, or an object that maps its name to
null. -/
def codec : Codec OpCode where
  read depth d := match d, depth with
    | .str (some s), _ => ofName s
    | .obj _ _, 0 => .error .malformed
    | .obj members closed, _ + 1 => readMember members closed
    | _, _ => .error .malformed
  ofJson v := match v with
    | .str s => ofName s
    | .obj [(k, v)] => do
      let c ← ofName k
      Codec.unit.ofJson v
      .ok c
    | .obj _ => .error (.invalidValue .map "map with a single key")
    | v => .error (Codec.mismatch v "string or map")
  toJson c := .str c.name

end OpCode

end EvmBridge
