import EvmBridge.Codec.Record

/-!
# Invocations

An invocation is a message call, or a contract creation if it names no callee. Its result says
what is left of the gas and, by an empty error, that it succeeded.
-/

namespace EvmBridge

/-- A message call or a contract creation. -/
structure Invocation where
  caller : Address
  /-- Who is called; nobody for a creation. -/
  callee : Option Address := none
  /-- What is transferred; nothing counts as zero. -/
  value : Option Nat := none
  /-- The call data, or the code of the contract to create. -/
  input : Bytes := []
  gas : UInt64
  readOnly : Bool := false
  deriving DecidableEq, Repr

/-- An invocation handed to the host, with the depth at which it was reached. -/
structure ExternalInvocation where
  caller : Address
  callee : Option Address := none
  value : Option Nat := none
  input : Bytes := []
  gas : UInt64
  readOnly : Bool := false
  depth : UInt32
  deriving DecidableEq, Repr

/-- The outcome of an invocation. -/
structure InvocationResult where
  /-- What the call returned, or the data of a revert. -/
  returnData : Bytes := []
  leftOverGas : UInt64 := 0
  /-- Why it failed; empty on success. -/
  executionError : String := ""
  reverted : Bool := false
  /-- The address of a created contract. -/
  contractAddress : Option Address := none
  deriving DecidableEq, Repr

namespace Invocation

def isCreate (inv : Invocation) : Bool := inv.callee.isNone

/-- The invocation as the host is asked to execute it. -/
def atDepth (inv : Invocation) (depth : UInt32) : ExternalInvocation where
  caller := inv.caller
  callee := inv.callee
  value := inv.value
  input := inv.input
  gas := inv.gas
  readOnly := inv.readOnly
  depth := depth

def codec : Codec Invocation :=
  .record "Invocation" .refused
    (.required "caller" .address <|
      .defaulted "callee" (.optional .address) none <|
      .defaulted "value" (.optional .quantity) none <|
      .defaulted "input" .bytes [] <|
      .required "gas" .quantityWord <|
      .defaulted "readOnly" .bool false .done)
    (fun (caller, callee, value, input, gas, readOnly, ()) =>
      { caller, callee, value, input, gas, readOnly })
    (fun i => (i.caller, i.callee, i.value, i.input, i.gas, i.readOnly, ()))

end Invocation

namespace ExternalInvocation

def invocation (e : ExternalInvocation) : Invocation where
  caller := e.caller
  callee := e.callee
  value := e.value
  input := e.input
  gas := e.gas
  readOnly := e.readOnly

def codec : Codec ExternalInvocation :=
  .record "ExternalInvocation" .refused
    (.required "caller" .address <|
      .defaulted "callee" (.optional .address) none <|
      .defaulted "value" (.optional .quantity) none <|
      .defaulted "input" .bytes [] <|
      .required "gas" .quantityWord <|
      .defaulted "readOnly" .bool false <|
      .required "depth" .word32 .done)
    (fun (caller, callee, value, input, gas, readOnly, depth, ()) =>
      { caller, callee, value, input, gas, readOnly, depth })
    (fun e => (e.caller, e.callee, e.value, e.input, e.gas, e.readOnly, e.depth, ()))

end ExternalInvocation

namespace InvocationResult

def success (data : Bytes) (gas : UInt64) : InvocationResult :=
  { returnData := data, leftOverGas := gas }

/-- A failure, which leaves no gas. -/
def failure (error : String) : InvocationResult := { executionError := error }

/-- A revert by the callee. -/
def revert (data : Bytes) (gas : UInt64) : InvocationResult where
  returnData := data
  leftOverGas := gas
  executionError := "execution reverted"
  reverted := true

def isSuccess (r : InvocationResult) : Bool := r.executionError.isEmpty

/-- How a result stands in JSON; the address is written only if there is one. -/
def codec : Codec InvocationResult :=
  .record "InvocationResult" .skipped
    (.defaulted "returnData" .bytes [] <|
      .required "leftOverGas" .quantityWord <|
      .defaulted "executionError" .text "" <|
      .defaulted "reverted" .bool false <|
      .omitted "contractAddress" (.optional .address) none Option.isNone .done)
    (fun (returnData, leftOverGas, executionError, reverted, contractAddress, ()) =>
      { returnData, leftOverGas, executionError, reverted, contractAddress })
    (fun r =>
      (r.returnData, r.leftOverGas, r.executionError, r.reverted, r.contractAddress, ()))

end InvocationResult

end EvmBridge
