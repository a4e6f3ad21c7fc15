import EvmBridge.Error
import EvmBridge.Text.Blank
import EvmBridge.Wire.Method

/-!
# Requests

A call of the module names a method and gives it a text. A `Request` is what such a call asks
for; nothing is done before all of it was understood.
-/

namespace EvmBridge

/-- What a call asks for. -/
inductive Request where
  | openMemory
  | openDisk (p : LevelDbParams)
  | closeStore (p : DatabaseParams)
  | openView (p : StateParams)
  | closeView (p : HandleParams)
  | finalize (p : HandleParams)
  | intermediateRoot (p : HandleParams)
  | commit (p : HandleParams)
  | isEmpty (p : AccountParams)
  | isExternal (p : AccountParams)
  | balance (p : AccountParams)
  | addBalance (p : BalanceParams)
  | subBalance (p : BalanceParams)
  | setBalance (p : BalanceParams)
  | nonce (p : AccountParams)
  | setNonce (p : NonceParams)
  | codeHash (p : AccountParams)
  | code (p : AccountParams)
  | setCode (p : CodeParams)
  | storage (p : StorageParams)
  | setStorage (p : SetStorageParams)
  | snapshot (p : HandleParams)
  | revert (p : SnapshotParams)
  | proof (p : ProofParams)
  | dump (p : DumpParams)
  | accessSetup (p : AccessParams)
  | accessAccount (p : AccountParams)
  | accessSlot (p : SlotParams)
  | apply (p : EvmParams)
  | createTracer (options : TraceOptions)
  | removeTracer (p : TracerParams)
  | traceResult (p : TracerParams)
  | txStart (p : TracerTxStartParams)
  | txEnd (p : TracerTxEndParams)
  | frameStart (p : TracerStartParams)
  | frameEnd (p : TracerEndParams)
  | frameEnter (p : TracerEnterParams)
  | frameExit (p : TracerExitParams)
  | invokeCallback (p : CallbackInvokeParams)

namespace Request

/-- Reads the arguments of a method, which must be there. -/
def params {α ρ : Type} (m : Method α ρ) (args : Option String) : Except EngineError α :=
  match args with
  | none => .error (.invalidArguments .missing)
  | some text => (m.params.decode text).mapError fun e => .invalidArguments (.malformed e)

/-- A method without arguments takes a blank text for none. -/
def noParams (args : Option String) : Except EngineError Unit :=
  if args.all Text.isBlank then .ok () else .error (.invalidArguments .superfluous)

/-- What a call asks for. -/
def ofCall (method : String) (args : Option String) : Except EngineError Request :=
  match method with
  | "DatabaseOpenMemoryDB" => (fun _ => .openMemory) <$> noParams args
  | "DatabaseOpenLevelDB" => .openDisk <$> params .openDisk args
  | "DatabaseClose" => .closeStore <$> params .closeStore args
  | "StateOpen" => .openView <$> params .openView args
  | "StateClose" => .closeView <$> params .closeView args
  | "StateFinalize" => .finalize <$> params .finalize args
  | "StateIntermediateRoot" => .intermediateRoot <$> params .intermediateRoot args
  | "StateCommit" => .commit <$> params .commit args
  | "StateEmpty" => .isEmpty <$> params .isEmpty args
  | "StateIsEoa" => .isExternal <$> params .isExternal args
  | "StateGetBalance" => .balance <$> params .balance args
  | "StateAddBalance" => .addBalance <$> params .addBalance args
  | "StateSubBalance" => .subBalance <$> params .subBalance args
  | "StateSetBalance" => .setBalance <$> params .setBalance args
  | "StateGetNonce" => .nonce <$> params .nonce args
  | "StateSetNonce" => .setNonce <$> params .setNonce args
  | "StateGetCodeHash" => .codeHash <$> params .codeHash args
  | "StateGetCode" => .code <$> params .code args
  | "StateSetCode" => .setCode <$> params .setCode args
  | "StateGetStorage" => .storage <$> params .storage args
  | "StateSetStorage" => .setStorage <$> params .setStorage args
  | "StateSnapshot" => .snapshot <$> params .snapshot args
  | "StateRevertToSnapshot" => .revert <$> params .revert args
  | "StateGetProof" => .proof <$> params .proof args
  | "StateDump" => .dump <$> params .dump args
  | "AccessSetup" => .accessSetup <$> params .accessSetup args
  | "AccessAccount" => .accessAccount <$> params .accessAccount args
  | "AccessSlot" => .accessSlot <$> params .accessSlot args
  | "EvmApply" => .apply <$> params .apply args
  | "TracerCreate" => .createTracer <$> params .createTracer args
  | "TracerRemove" => .removeTracer <$> params .removeTracer args
  | "TracerResult" => .traceResult <$> params .traceResult args
  | "TracerCaptureTxStart" => .txStart <$> params .txStart args
  | "TracerCaptureTxEnd" => .txEnd <$> params .txEnd args
  | "TracerCaptureStart" => .frameStart <$> params .frameStart args
  | "TracerCaptureEnd" => .frameEnd <$> params .frameEnd args
  | "TracerCaptureEnter" => .frameEnter <$> params .frameEnter args
  | "TracerCaptureExit" => .frameExit <$> params .frameExit args
  | "CallbackInvoke" => .invokeCallback <$> params .invokeCallback args
  | other => .error (.methodNotFound other)

end Request

end EvmBridge
