import EvmBridge.State.Account
import EvmBridge.Wire.Envelope
import EvmBridge.Wire.Params
import EvmBridge.Wire.Results
import EvmBridge.Wire.TracerParams

/-!
# Payloads

What crosses the boundary is a value of one of many types. `Payload` is such a type with its way
of being written and read, `Payload.record?` finds one by its name, and `Payload.canonical` brings
a text to the form in which this side would have written it.
-/

namespace EvmBridge

/-- A type of values that can be written and read. -/
structure Payload where
  /-- The values. -/
  {Carrier : Type}
  /-- How they are written and read. -/
  codec : Codec Carrier

namespace Payload

instance {α : Type} : CoeOut (Codec α) (Option Payload) := ⟨fun codec => some ⟨codec⟩⟩

/-- The records and enumerations of the boundary, by name. -/
def record? : String → Option Payload
  | "DatabaseParams" => DatabaseParams.codec
  | "LevelDbParams" => LevelDbParams.codec
  | "StateParams" => StateParams.codec
  | "HandleParams" => HandleParams.codec
  | "AccountParams" => AccountParams.codec
  | "BalanceParams" => BalanceParams.codec
  | "NonceParams" => NonceParams.codec
  | "CodeParams" => CodeParams.codec
  | "StorageParams" => StorageParams.codec
  | "SetStorageParams" => SetStorageParams.codec
  | "SnapshotParams" => SnapshotParams.codec
  | "DumpParams" => DumpParams.codec
  | "ProofParams" => ProofParams.codec
  | "AccessParams" => AccessParams.codec
  | "SlotParams" => SlotParams.codec
  | "EvmParams" => EvmParams.codec
  | "TracerParams" => TracerParams.codec
  | "TracerTxStartParams" => TracerTxStartParams.codec
  | "TracerTxEndParams" => TracerTxEndParams.codec
  | "TracerStartParams" => TracerStartParams.codec
  | "TracerEndParams" => TracerEndParams.codec
  | "TracerEnterParams" => TracerEnterParams.codec
  | "TracerExitParams" => TracerExitParams.codec
  | "CallbackInvokeParams" => CallbackInvokeParams.codec
  | "Invocation" => Invocation.codec
  | "ExternalInvocation" => ExternalInvocation.codec
  | "InvocationResult" => InvocationResult.codec
  | "ForkRules" => ForkRules.codec
  | "EvmContext" => EvmContext.codec
  | "TraceOptions" => TraceOptions.codec
  | "TracerOpCode" => OpCode.codec
  | "TracerResult" => TracerResult.codec
  | "ProofNode" => ProofNode.codec
  | "StorageProof" => StorageProof.codec
  | "ProofAccountResult" => ProofAccountResult.codec
  | "LogRecord" => LogRecord.codec
  | "Account" => Account.codec
  | "Accounts" => Accounts.codec
  | "Envelope" => Envelope.codec
  | _ => none

/-- The text that writes the value that a text writes. -/
def canonical (p : Payload) (text : String) : Except Json.Fault String :=
  (p.codec.decode text).map p.codec.encode

end Payload

end EvmBridge
