import EvmBridge.Wire.Context

/-!
# Arguments of tracer methods and of callback calls
-/

namespace EvmBridge

/-- Names a tracer. -/
structure TracerParams where
  tracerHandle : Handle
  deriving DecidableEq, Repr

/-- The start of a transaction. -/
structure TracerTxStartParams where
  tracerHandle : Handle
  gasLimit : UInt64
  deriving DecidableEq, Repr

/-- The end of a transaction. -/
structure TracerTxEndParams where
  tracerHandle : Handle
  restGas : UInt64
  deriving DecidableEq, Repr

/-- The start of the top frame. -/
structure TracerStartParams where
  tracerHandle : Handle
  /-- The view the frame runs on. -/
  stateDB : Handle
  /-- The context the frame runs in. -/
  context : EvmContext
  sender : Address
  target : Address
  create : Bool
  input : Bytes := []
  gas : UInt64
  value : Option Nat := none
  deriving DecidableEq, Repr

/-- The end of the top frame. -/
structure TracerEndParams where
  tracerHandle : Handle
  output : Bytes := []
  gasUsed : UInt64
  /-- How long it took, in nanoseconds. -/
  duration : UInt64 := 0
  err : String := ""
  deriving DecidableEq, Repr

/-- The start of a nested frame. -/
structure TracerEnterParams where
  tracerHandle : Handle
  opCode : OpCode
  sender : Address
  target : Address
  input : Bytes := []
  gas : UInt64
  value : Option Nat := none
  deriving DecidableEq, Repr

/-- The end of a nested frame. -/
structure TracerExitParams where
  tracerHandle : Handle
  output : Bytes := []
  gasUsed : UInt64
  err : String := ""
  deriving DecidableEq, Repr

/-- A call of a host callback. -/
structure CallbackInvokeParams where
  handle : Handle
  args : String
  /-- Whether it must answer; if not, it must not. -/
  expectResult : Bool := false
  deriving DecidableEq, Repr

namespace TracerParams

def codec : Codec TracerParams :=
  .record "TracerParams" .refused (.required "tracerHandle" .int32 .done)
    (fun (tracerHandle, ()) => { tracerHandle }) (fun p => (p.tracerHandle, ()))

end TracerParams

namespace TracerTxStartParams

def codec : Codec TracerTxStartParams :=
  .record "TracerTxStartParams" .refused
    (.required "tracerHandle" .int32 <| .required "gasLimit" .quantityWord .done)
    (fun (tracerHandle, gasLimit, ()) => { tracerHandle, gasLimit })
    (fun p => (p.tracerHandle, p.gasLimit, ()))

end TracerTxStartParams

namespace TracerTxEndParams

def codec : Codec TracerTxEndParams :=
  .record "TracerTxEndParams" .refused
    (.required "tracerHandle" .int32 <| .required "restGas" .quantityWord .done)
    (fun (tracerHandle, restGas, ()) => { tracerHandle, restGas })
    (fun p => (p.tracerHandle, p.restGas, ()))

end TracerTxEndParams

namespace TracerStartParams

def codec : Codec TracerStartParams :=
  .record "TracerStartParams" .refused
    (.required "tracerHandle" .int32 <| .required "stateDB" .int32 <|
      .required "context" EvmContext.codec <| .required "from" .address <|
      .required "to" .address <| .required "create" .bool <| .defaulted "input" .bytes [] <|
      .required "gas" .quantityWord <| .defaulted "value" (.optional .quantity) none .done)
    (fun (tracerHandle, stateDB, context, sender, target, create, input, gas, value, ()) =>
      { tracerHandle, stateDB, context, sender, target, create, input, gas, value })
    (fun p => (p.tracerHandle, p.stateDB, p.context, p.sender, p.target, p.create, p.input, p.gas,
      p.value, ()))

end TracerStartParams

namespace TracerEndParams

def codec : Codec TracerEndParams :=
  .record "TracerEndParams" .refused
    (.required "tracerHandle" .int32 <| .defaulted "output" .bytes [] <|
      .required "gasUsed" .quantityWord <| .defaulted "duration" .word64 0 <|
      .defaulted "err" .text "" .done)
    (fun (tracerHandle, output, gasUsed, duration, err, ()) =>
      { tracerHandle, output, gasUsed, duration, err })
    (fun p => (p.tracerHandle, p.output, p.gasUsed, p.duration, p.err, ()))

end TracerEndParams

namespace TracerEnterParams

def codec : Codec TracerEnterParams :=
  .record "TracerEnterParams" .refused
    (.required "tracerHandle" .int32 <| .required "opCode" OpCode.codec <|
      .required "from" .address <| .required "to" .address <| .defaulted "input" .bytes [] <|
      .required "gas" .quantityWord <| .defaulted "value" (.optional .quantity) none .done)
    (fun (tracerHandle, opCode, sender, target, input, gas, value, ()) =>
      { tracerHandle, opCode, sender, target, input, gas, value })
    (fun p => (p.tracerHandle, p.opCode, p.sender, p.target, p.input, p.gas, p.value, ()))

end TracerEnterParams

namespace TracerExitParams

def codec : Codec TracerExitParams :=
  .record "TracerExitParams" .refused
    (.required "tracerHandle" .int32 <| .defaulted "output" .bytes [] <|
      .required "gasUsed" .quantityWord <| .defaulted "err" .text "" .done)
    (fun (tracerHandle, output, gasUsed, err, ()) => { tracerHandle, output, gasUsed, err })
    (fun p => (p.tracerHandle, p.output, p.gasUsed, p.err, ()))

end TracerExitParams

namespace CallbackInvokeParams

def codec : Codec CallbackInvokeParams :=
  .record "CallbackInvokeParams" .refused
    (.required "handle" .int32 <| .required "args" .text <|
      .defaulted "expectResult" .bool false .done)
    (fun (handle, args, expectResult, ()) => { handle, args, expectResult })
    (fun p => (p.handle, p.args, p.expectResult, ()))

end CallbackInvokeParams

end EvmBridge
