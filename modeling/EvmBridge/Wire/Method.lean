import EvmBridge.State.Account
import EvmBridge.Wire.Envelope
import EvmBridge.Wire.Params
import EvmBridge.Wire.Results
import EvmBridge.Wire.TracerParams

/-!
# Methods

Every method of the module has a name, a type of arguments and a type of results. Both sides of
the boundary take them from here.
-/

namespace EvmBridge

/-- A method of the module. -/
structure Method (α ρ : Type) where
  name : String
  params : Codec α
  result : Codec ρ

namespace Method

/-! ## Stores -/

def openMemory : Method Unit Handle := ⟨"DatabaseOpenMemoryDB", .unit, .int32⟩

def openDisk : Method LevelDbParams Handle := ⟨"DatabaseOpenLevelDB", LevelDbParams.codec, .int32⟩

def closeStore : Method DatabaseParams Unit := ⟨"DatabaseClose", DatabaseParams.codec, .ignored⟩

/-! ## Views -/

def openView : Method StateParams Handle := ⟨"StateOpen", StateParams.codec, .int32⟩

def closeView : Method HandleParams Unit := ⟨"StateClose", HandleParams.codec, .ignored⟩

/-- Drops the empty accounts and all revisions. -/
def finalize : Method HandleParams Unit := ⟨"StateFinalize", HandleParams.codec, .ignored⟩

/-- The root a commit would have. -/
def intermediateRoot : Method HandleParams Hash :=
  ⟨"StateIntermediateRoot", HandleParams.codec, .hash⟩

def commit : Method HandleParams Hash := ⟨"StateCommit", HandleParams.codec, .hash⟩

/-- Whether an account is absent or empty. -/
def isEmpty : Method AccountParams Bool := ⟨"StateEmpty", AccountParams.codec, .bool⟩

/-- Whether an address is that of a person. -/
def isExternal : Method AccountParams Bool := ⟨"StateIsEoa", AccountParams.codec, .bool⟩

def balance : Method AccountParams Nat := ⟨"StateGetBalance", AccountParams.codec, .quantity⟩

def addBalance : Method BalanceParams Unit := ⟨"StateAddBalance", BalanceParams.codec, .ignored⟩

def subBalance : Method BalanceParams Unit := ⟨"StateSubBalance", BalanceParams.codec, .ignored⟩

def setBalance : Method BalanceParams Unit := ⟨"StateSetBalance", BalanceParams.codec, .ignored⟩

def nonce : Method AccountParams UInt64 := ⟨"StateGetNonce", AccountParams.codec, .quantityWord⟩

def setNonce : Method NonceParams Unit := ⟨"StateSetNonce", NonceParams.codec, .ignored⟩

def codeHash : Method AccountParams Hash := ⟨"StateGetCodeHash", AccountParams.codec, .hash⟩

def code : Method AccountParams Bytes := ⟨"StateGetCode", AccountParams.codec, .bytes⟩

def setCode : Method CodeParams Unit := ⟨"StateSetCode", CodeParams.codec, .ignored⟩

def storage : Method StorageParams Hash := ⟨"StateGetStorage", StorageParams.codec, .hash⟩

/-- Sets or removes a slot. -/
def setStorage : Method SetStorageParams Unit :=
  ⟨"StateSetStorage", SetStorageParams.codec, .ignored⟩

def snapshot : Method HandleParams Int32 := ⟨"StateSnapshot", HandleParams.codec, .int32⟩

def revert : Method SnapshotParams Unit :=
  ⟨"StateRevertToSnapshot", SnapshotParams.codec, .ignored⟩

def proof : Method ProofParams ProofAccountResult :=
  ⟨"StateGetProof", ProofParams.codec, ProofAccountResult.codec⟩

def dump : Method DumpParams Unit := ⟨"StateDump", DumpParams.codec, .ignored⟩

/-! ## Access list -/

/-- Starts a new access list. -/
def accessSetup : Method AccessParams Unit := ⟨"AccessSetup", AccessParams.codec, .ignored⟩

def accessAccount : Method AccountParams Bool := ⟨"AccessAccount", AccountParams.codec, .bool⟩

def accessSlot : Method SlotParams Bool := ⟨"AccessSlot", SlotParams.codec, .bool⟩

/-! ## Execution -/

def apply : Method EvmParams InvocationResult :=
  ⟨"EvmApply", EvmParams.codec, InvocationResult.codec⟩

/-! ## Tracers -/

def createTracer : Method TraceOptions Handle := ⟨"TracerCreate", TraceOptions.codec, .int32⟩

def removeTracer : Method TracerParams Unit := ⟨"TracerRemove", TracerParams.codec, .ignored⟩

def traceResult : Method TracerParams TracerResult :=
  ⟨"TracerResult", TracerParams.codec, TracerResult.codec⟩

def txStart : Method TracerTxStartParams Unit :=
  ⟨"TracerCaptureTxStart", TracerTxStartParams.codec, .ignored⟩

def txEnd : Method TracerTxEndParams Unit :=
  ⟨"TracerCaptureTxEnd", TracerTxEndParams.codec, .ignored⟩

def frameStart : Method TracerStartParams Unit :=
  ⟨"TracerCaptureStart", TracerStartParams.codec, .ignored⟩

def frameEnd : Method TracerEndParams Unit :=
  ⟨"TracerCaptureEnd", TracerEndParams.codec, .ignored⟩

def frameEnter : Method TracerEnterParams Unit :=
  ⟨"TracerCaptureEnter", TracerEnterParams.codec, .ignored⟩

def frameExit : Method TracerExitParams Unit :=
  ⟨"TracerCaptureExit", TracerExitParams.codec, .ignored⟩

/-! ## Diagnostics -/

/-- Calls a callback of the host. -/
def invokeCallback : Method CallbackInvokeParams (Option String) :=
  ⟨"CallbackInvoke", CallbackInvokeParams.codec, .optional .text⟩

end Method

end EvmBridge
