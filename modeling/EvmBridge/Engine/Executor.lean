import EvmBridge.Engine.Outgoing

/-!
# The executor

An apply runs one invocation on a view. It moves the value, counts the nonce, and stores the code
of a creation; calls of external contracts are executed by the host, and one selector asks for
the hash of the previous block. There is no other code to run.

An invocation that does not succeed is undone by a snapshot. Nonces, depths and snapshots are
counted in words, and what cannot be counted is an overflow, which is not undone. Every step is
reported to the tracer, if there is one. While the host runs it may change the view and the tracer,
so both are looked up anew after each call of it.
-/

namespace EvmBridge

/-- The gas every invocation costs. -/
def intrinsicGas : Nat := 21000

/-- The gas a creation costs besides. -/
def createGas : Nat := 32000

/-- The gas of an invocation that names none. -/
def maxGas : UInt64 := 0x7fffffffffffffff

/-- The input that asks for the hash of the previous block. -/
def blockHashSelector : Bytes := [0x96, 0x63, 0xf8, 0x8f]

/-- The base fee of a block that names none. -/
def defaultBaseFee : Nat := 1000000000

/-- The context with the fields filled in that it leaves out. -/
def EvmContext.withDefaults (now : Nat) (c : EvmContext) : EvmContext :=
  { c with
    gasLimit := if c.gasLimit = 0 then maxGas else c.gasLimit
    gasPrice := some (c.gasPrice.getD 0)
    blockNumber := some (c.blockNumber.getD 0)
    baseFee := some (c.baseFee.getD defaultBaseFee)
    time := some (c.time.getD now) }

/-- The address of a contract that an account creates at a nonce. -/
def createAddress (caller : Address) (nonce : UInt64) : Address :=
  (hashBytes (caller.bytes ++ Bytes.bigEndian 8 nonce.toNat)).last 20 (by omega)

/-- The hash of a block for which nobody is asked. -/
def mockBlockHash (number : Nat) : Hash := hashBytes (Utf8.encode (toString number))

/-- A nonce, counted up. -/
def nextNonce (nonce : UInt64) : Act UInt64 :=
  if nonce.toNat + 1 < UInt64.size then pure (nonce + 1) else throw .overflow

/-- A depth, counted up. -/
def nextDepth (depth : UInt32) : Act UInt32 :=
  if depth.toNat + 1 < UInt32.size then pure (depth + 1) else throw .overflow

/-- Takes a snapshot of the view at a place. -/
def snapshotAt (i : Nat) : Act Nat := do
  match ((← get).view i).snapshot with
  | some (id, v) =>
    Act.change (·.setView i v)
    return id
  | none => throw .overflow

/-- The gas that was used, never below zero. -/
def gasUsed (given left : UInt64) : UInt64 := if left ≤ given then given - left else 0

/-- Moves value from one account to another. Nothing happens for zero. -/
def View.transfer (v : View) (sender receiver : Address) (value : Nat) : Except String View :=
  if value = 0 then .ok v
  else if v.balance sender < value then .error "insufficient balance for transfer"
  else
    match v.subBalance sender value with
    | .error e => .error e.message
    | .ok v => .ok (v.addBalance receiver value)

/-- What an apply works with. -/
structure Executor where
  upcall : Upcall
  view : Nat
  tracer : Option Nat
  /-- The context, complete. -/
  context : EvmContext

namespace Executor

def look (x : Executor) : Act View := return (← get).view x.view

def put (x : Executor) (v : View) : Act Unit := Act.change (·.setView x.view v)

def trace (x : Executor) (f : Tracer → Tracer) : Act Unit :=
  match x.tracer with
  | none => pure ()
  | some i => Act.change fun w => w.setTracer i (f (w.tracer i))

def log (x : Executor) (level : Level) (msg : String) (fields : List (String × Json)) : Act Unit :=
  Act.change (Outgoing.log x.upcall level msg fields)

/-- Asks a callback for a value. -/
def query {α : Type} (x : Executor) (c : Codec α) (h : Handle) (args : String) :
    Act (Except EngineError α) := fun w =>
  let (r, w) := Outgoing.query x.upcall c h args w
  (.ok r, w)

def snapshot (x : Executor) : Act Nat := snapshotAt x.view

/-- Takes the view back to a snapshot. -/
def revert (x : Executor) (id : Nat) : Act Unit := do
  match (← x.look).revert id with
  | some v => x.put v
  | none => Act.refuse (.invalidRevision (Int32.ofNat id))

/-- Creates a contract, whose code is the input. -/
def create (x : Executor) (inv : Invocation) (value : Nat) (remaining : UInt64) :
    Act InvocationResult := do
  let v ← x.look
  let nonce := v.nonce inv.caller
  let address := createAddress inv.caller nonce
  if !(v.code address).isEmpty || v.nonce address ≠ 0 then
    return .failure "contract address collision"
  let v := v.setNonce inv.caller (← nextNonce nonce)
  match v.transfer inv.caller address value with
  | .error reason =>
    -- the nonce is counted all the same
    x.put v
    return .failure reason
  | .ok v =>
    x.put ((v.setNonce address 1).setCode address inv.input)
    return { InvocationResult.success [] remaining with contractAddress := some address }

/-- What the answer of the host means for an invocation with this much gas. -/
def outcome (remaining : UInt64) : Except EngineError InvocationResult → InvocationResult
  | .error e => .failure ("external contract invocation failed: " ++ e.message)
  | .ok r =>
    -- only a success is cut down to what remained
    if r.reverted then .revert r.returnData r.leftOverGas
    else if !r.executionError.isEmpty then
      .failure ("external contract invocation failed: " ++ r.executionError)
    else .success r.returnData (min r.leftOverGas remaining)

/-- Has the host execute a call. Without a callback nothing is executed. -/
def external (x : Executor) (inv : Invocation) (callee : Address) (remaining : UInt64) :
    Act InvocationResult := do
  match x.context.externalCallback with
  | none => return .success [] remaining
  | some h =>
    let depth ← nextDepth x.context.initialDepth
    let asked := { inv with callee := some callee, gas := remaining }.atDepth depth
    x.trace (·.enter {
      opCode := if inv.readOnly then .staticCall else .call
      sender := asked.caller, target := callee, input := asked.input, gas := asked.gas,
      value := asked.value })
    let answer ← x.query InvocationResult.codec h (ExternalInvocation.codec.encode asked)
    let r := outcome remaining answer
    x.trace (·.exit {
      output := r.returnData, gasUsed := gasUsed remaining r.leftOverGas
      error := r.executionError })
    return r

/-- The hash of a block; zero if the host was asked and did not answer. -/
def blockHash (x : Executor) (number : Nat) : Act Hash := do
  match x.context.blockHashCallback with
  | none => return mockBlockHash number
  | some h =>
    match ← x.query Codec.hash h (Json.str (Quantity.encode number)).render with
    | .ok hash => return hash
    | .error e =>
      x.log .warn "block hash lookup failed" [("err", .str e.message)]
      return .zero

/-- What an account answers to a call. -/
def answer (x : Executor) (inv : Invocation) (callee : Address) (remaining : UInt64) :
    Act InvocationResult := do
  if x.context.externalContracts.contains callee then
    x.external inv callee remaining
  else if blockHashSelector.isPrefixOf inv.input then
    let hash ← x.blockHash (x.context.blockNumber.getD 0 - 1)
    return .success hash.bytes remaining
  else return .success [] remaining

def call (x : Executor) (inv : Invocation) (callee : Address) (value : Nat) (remaining : UInt64) :
    Act InvocationResult := do
  let v ← x.look
  let v := v.setNonce inv.caller (← nextNonce (v.nonce inv.caller))
  match v.transfer inv.caller callee value with
  | .error reason =>
    x.put v
    return .failure reason
  | .ok v =>
    x.put v
    x.answer inv callee remaining

/-- What an invocation costs before it runs. -/
def cost (inv : Invocation) : Nat := if inv.isCreate then intrinsicGas + createGas else intrinsicGas

/-- Creates a contract if nobody is called. -/
def body (x : Executor) (inv : Invocation) (value : Nat) (remaining : UInt64) :
    Act InvocationResult :=
  match inv.callee with
  | none => x.create inv value remaining
  | some callee => x.call inv callee value remaining

/-- Runs an invocation, and undoes it if it does not succeed. -/
def run (x : Executor) (inv : Invocation) : Act InvocationResult := do
  if inv.gas.toNat < cost inv then return .failure "out of gas"
  let remaining := inv.gas - UInt64.ofNat (cost inv)
  let value := inv.value.getD 0
  if inv.readOnly && 0 < value then return .failure "write protection"
  let id ← x.snapshot
  match ← Act.attempt (x.body inv value remaining) with
  | .ok r =>
    if !r.isSuccess then x.revert id
    return r
  | .error (.error e) =>
    x.revert id
    Act.refuse e
  -- an overflow goes past this, and leaves things as they are at that moment
  | .error .overflow => throw .overflow

def frame (inv : Invocation) : FrameStart where
  opCode := if inv.isCreate then .create else .call
  sender := inv.caller
  target := inv.callee.getD .zero
  input := inv.input
  gas := inv.gas
  value := inv.value

/-- The invocation with the gas it runs on. Zero stands for as much as there is. -/
def fueled (inv : Invocation) : Invocation :=
  if inv.gas = 0 then { inv with gas := maxGas } else inv

/-- The fields of the record that tells of an apply. -/
def appliedFields (inv : Invocation) (r : InvocationResult) : List (String × Json) :=
  [("caller", .str inv.caller.toHex), ("gasUsed", .nat (gasUsed inv.gas r.leftOverGas).toNat),
   ("error", .str r.executionError)]

def apply (x : Executor) (inv : Invocation) : Act InvocationResult := do
  let inv := fueled inv
  x.trace fun t => (t.txStart inv.gas).start (frame inv)
  let r ← x.run inv
  x.trace fun t =>
    (t.finish
      { output := r.returnData, gasUsed := gasUsed inv.gas r.leftOverGas
        error := r.executionError } 0).txEnd r.leftOverGas
  x.log .debug "applied invocation" (appliedFields inv r)
  return r

end Executor

end EvmBridge
