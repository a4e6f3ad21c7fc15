import EvmBridge.Engine.Executor
import EvmBridge.Engine.Request
import EvmBridge.State.Inspect

/-!
# The service

Runs requests against the world. `Service.dispatch` answers a call with a value or a fault,
`Service.invoke` with the text of an envelope.
-/

namespace EvmBridge.Service

/-- The place of a store. -/
def findStore (h : Handle) : Act Nat := do Act.ofExcept ((← get).engine.stores.find h)

def findView (h : Handle) : Act Nat := do Act.ofExcept ((← get).engine.views.find h)

def findTracer (h : Handle) : Act Nat := do Act.ofExcept ((← get).engine.tracers.find h)

def addStore (s : Store) : Act Handle := do
  let w ← get
  let (h, stores) := w.engine.stores.add s
  set { w with engine := { w.engine with stores } }
  return h

def addView (v : View) : Act Handle := do
  let w ← get
  let (h, views) := w.engine.views.add v
  set { w with engine := { w.engine with views } }
  return h

def addTracer (t : Tracer) : Act Handle := do
  let w ← get
  let (h, tracers) := w.engine.tracers.add t
  set { w with engine := { w.engine with tracers } }
  return h

/-- Opens a store on disk. Its directory stays even if it cannot be opened. -/
def openDisk (p : LevelDbParams) : Act Handle := do
  let w ← get
  let (store, files) := Store.openAt w.files p.path p.preimages
  set { w with files }
  addStore (← Act.ofExcept store)

/-- Closes a store. Views that are open on it go on. -/
def closeStore (p : DatabaseParams) : Act Unit := do
  let w ← get
  let stores ← Act.ofExcept (w.engine.stores.close p.databaseHandle)
  set { w with engine := { w.engine with stores } }

def openView (p : StateParams) : Act Handle := do
  let store ← findStore p.databaseHandle
  let accounts ← Act.ofExcept (((← get).store store).loadFrom p.root)
  addView { store, accounts }

def closeView (p : HandleParams) : Act Unit := do
  let w ← get
  let views ← Act.ofExcept (w.engine.views.close p.handle)
  set { w with engine := { w.engine with views } }

def removeTracer (p : TracerParams) : Act Unit := do
  let w ← get
  let tracers ← Act.ofExcept (w.engine.tracers.close p.tracerHandle)
  set { w with engine := { w.engine with tracers } }

/-- Looks at a view. -/
def look {α : Type} (h : Handle) (f : View → α) : Act α := do
  let i ← findView h
  return f ((← get).view i)

/-- Changes a view, with an answer. -/
def step {α : Type} (h : Handle) (f : View → α × View) : Act α := do
  let i ← findView h
  let (a, v) := f ((← get).view i)
  Act.change (·.setView i v)
  return a

def update (h : Handle) (f : View → View) : Act Unit := step h fun v => ((), f v)

/-- Changes a view, if the change is allowed. -/
def updateIf (h : Handle) (f : View → Except EngineError View) : Act Unit := do
  let i ← findView h
  let v ← Act.ofExcept (f ((← get).view i))
  Act.change (·.setView i v)

def updateTracer (h : Handle) (f : Tracer → Tracer) : Act Unit := do
  let i ← findTracer h
  Act.change fun w => w.setTracer i (f (w.tracer i))

def snapshot (p : HandleParams) : Act Int32 := do
  let i ← findView p.handle
  return Int32.ofNat (← snapshotAt i)

def commit (p : HandleParams) : Act Hash := do
  let i ← findView p.handle
  -- this stays, even if the store cannot take the state
  Act.change fun w => w.setView i (w.view i).finalize
  let w ← get
  let v := w.view i
  let root := v.accounts.root
  let (store, files) ← Act.ofExcept ((w.store v.store).store w.files root v.accounts)
  set ({ w with files }.setStore v.store store)
  return root

/-- Proves an account of a committed state, whatever the view holds. -/
def proof (p : ProofParams) : Act ProofAccountResult := do
  let i ← findView p.handle
  let w ← get
  let accounts ← Act.ofExcept ((w.store (w.view i).store).loadFrom p.root)
  return accounts.proof p.address p.storageKeys

def dump (p : DumpParams) : Act Unit := do
  let i ← findView p.handle
  let w ← get
  let v := w.view i
  let text := (v.accounts.dump (w.store v.store).preimages).pretty
  let files ← Act.ofExcept ((w.files.write p.dumpFile text).mapError .io)
  set { w with files }

def apply (upcall : Upcall) (p : EvmParams) : Act InvocationResult := do
  let view ← findView p.handle
  let tracer ← match p.context.tracer with
    | none => pure none
    | some h => some <$> findTracer h
  Executor.apply { upcall, view, tracer, context := p.context.withDefaults 0 } p.invocation

def invokeCallback (upcall : Upcall) (p : CallbackInvokeParams) : Act (Option String) := fun w =>
  let (r, w) := Outgoing.invoke upcall p.handle p.args p.expectResult w
  (r.mapError fun e => .error (.callback e), w)

/-- A result as it stands in an answer: the members of all objects sorted. -/
def reply {α ρ : Type} (m : Method α ρ) (r : ρ) : Json := (m.result.toJson r).canonical

def run (upcall : Upcall) : Request → Act Json
  | .openMemory => reply .openMemory <$> addStore .memory
  | .openDisk p => reply .openDisk <$> openDisk p
  | .closeStore p => reply .closeStore <$> closeStore p
  | .openView p => reply .openView <$> openView p
  | .closeView p => reply .closeView <$> closeView p
  | .finalize p => reply .finalize <$> update p.handle View.finalize
  | .intermediateRoot p => reply .intermediateRoot <$> step p.handle fun v =>
      (v.finalize.accounts.root, v.finalize)
  | .commit p => reply .commit <$> commit p
  | .isEmpty p => reply .isEmpty <$> look p.handle (·.isEmpty p.address)
  | .isExternal p => reply .isExternal <$> look p.handle (·.isExternal p.address)
  | .balance p => reply .balance <$> look p.handle (·.balance p.address)
  | .addBalance p => reply .addBalance <$> update p.handle (·.addBalance p.address p.amount)
  | .subBalance p => reply .subBalance <$>
      updateIf p.handle fun v => (v.subBalance p.address p.amount).mapError .state
  | .setBalance p => reply .setBalance <$> update p.handle (·.setBalance p.address p.amount)
  | .nonce p => reply .nonce <$> look p.handle (·.nonce p.address)
  | .setNonce p => reply .setNonce <$> update p.handle (·.setNonce p.address p.nonce)
  | .codeHash p => reply .codeHash <$> look p.handle (·.codeHash p.address)
  | .code p => reply .code <$> look p.handle (·.code p.address)
  | .setCode p => reply .setCode <$> update p.handle (·.setCode p.address p.code)
  | .storage p => reply .storage <$> look p.handle (·.storage p.address p.key)
  | .setStorage p => reply .setStorage <$>
      updateIf p.handle fun v => (v.setStorage p.address p.key p.value).mapError .state
  | .snapshot p => reply .snapshot <$> snapshot p
  | .revert p => reply .revert <$> updateIf p.handle fun v =>
      match v.revert p.revisionId.toInt with
      | some v => .ok v
      | none => .error (.invalidRevision p.revisionId)
  | .proof p => reply .proof <$> proof p
  | .dump p => reply .dump <$> dump p
  | .accessSetup p => reply .accessSetup <$>
      update p.handle (·.accessSetup p.address p.destination p.coinbase p.rules)
  | .accessAccount p => reply .accessAccount <$> step p.handle (·.accessAccount p.address)
  | .accessSlot p => reply .accessSlot <$> step p.handle (·.accessSlot p.address p.slot)
  | .apply p => reply .apply <$> apply upcall p
  | .createTracer options => reply .createTracer <$> do
      addTracer (← Act.ofExcept (Tracer.create options))
  | .removeTracer p => reply .removeTracer <$> removeTracer p
  | .traceResult p => reply .traceResult <$> do
      let i ← findTracer p.tracerHandle
      return { result := ((← get).tracer i).result }
  | .txStart p => reply .txStart <$> updateTracer p.tracerHandle (·.txStart p.gasLimit)
  | .txEnd p => reply .txEnd <$> updateTracer p.tracerHandle (·.txEnd p.restGas)
  | .frameStart p => reply .frameStart <$> do
      let _ ← findView p.stateDB
      updateTracer p.tracerHandle (·.start {
        opCode := if p.create then .create else .call
        sender := p.sender, target := p.target, input := p.input, gas := p.gas, value := p.value })
  | .frameEnd p => reply .frameEnd <$> updateTracer p.tracerHandle (·.finish {
      output := p.output, gasUsed := p.gasUsed, error := p.err } p.duration)
  | .frameEnter p => reply .frameEnter <$> updateTracer p.tracerHandle (·.enter {
      opCode := p.opCode, sender := p.sender, target := p.target, input := p.input, gas := p.gas,
      value := p.value })
  | .frameExit p => reply .frameExit <$> updateTracer p.tracerHandle (·.exit {
      output := p.output, gasUsed := p.gasUsed, error := p.err })
  | .invokeCallback p => reply .invokeCallback <$> invokeCallback upcall p

def dispatch (upcall : Upcall) (method : String) (args : Option String) : Act Json := do
  run upcall (← Act.ofExcept (Request.ofCall method args))

/-- Answers a call with an envelope. A refusal is logged. -/
def invoke (upcall : Upcall) (method : String) (args : Option String) : Act String := do
  match ← Act.attempt (dispatch upcall method args) with
  | .ok v => return (Envelope.success v).encode
  | .error (.error e) =>
    Act.change (Outgoing.log upcall .debug "call failed"
      [("method", .str method), ("err", .str e.message)])
    return (Envelope.failure e.message).encode
  | .error .overflow => throw .overflow

end EvmBridge.Service
