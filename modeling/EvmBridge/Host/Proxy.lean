import EvmBridge.Host.Gateway

/-!
# The proxy

The one entry point by which the module reaches the callbacks of the host. A handle is looked up
in the registry, the callback runs, and its answer goes into a buffer of the module. Nothing that
goes wrong on the way leaves the proxy: it is told as an event, and the module gets no answer.

A callback may call the module, which may call callbacks again. `Proxy.nested n` lets this go on `n`
levels deep; at the last level nobody answers.
-/

namespace EvmBridge

namespace Behaviour

variable {α : Type}

/-- Lets code of the host run, as part of an instance of a callback. An accident of the module is
an accident of the code that called it. -/
def run (upcall : Upcall) (id : CallbackId) : Behaviour α → World → Except String α × World
  | answer a, w => (.ok a, w)
  | crash message, w => (.error message, w)
  | call method args next, w =>
    match Service.invoke upcall method args w with
    | (.ok envelope, w) => (next envelope).run upcall id w
    | (.error fault, w) => (.error fault.message, w)
  | request method args next, w =>
    let (r, w) := Gateway.invoke (EntryPoint.invoke upcall) .any method args w
    (next r).run upcall id w
  | starve times next, w =>
    next.run upcall id { w with buffers := { w.buffers with failNext := times } }
  | note n next, w =>
    next.run upcall id (w.note id n)
  | count next, w =>
    let c := w.callbacks[id]?.getD default
    (next c.calls).run upcall id
      { w with callbacks := w.callbacks.set id { c with calls := c.calls + 1 } }

end Behaviour

namespace Callback

/-- The event for a record of the module's log. -/
def recordEvent (r : LogRecord) : Event where
  severity := .ofLevelName r.lvl
  native := true
  message := r.msg
  fields := [("fields", .str (Json.obj r.fields.toList).render)]

/-- Answers with the hash of a block, and with zero if there is none to be had. -/
def hashAnswer (args : String) : Except String Hash → World → Option String × World
  | .ok hash, w => (some (Codec.hash.encode hash), w)
  | .error e, w =>
    (some (Codec.hash.encode .zero),
      w.emit { severity := .warn, message := "block hash lookup failed, answering zero hash"
               fields := [("error", .str e), ("args", .str args)] })

/-- Answers with the result of an invocation, and with nothing if there is none to be had. -/
def resultAnswer : Except String InvocationResult → World → Option String × World
  | .ok r, w => (some (InvocationResult.codec.encode r), w)
  | .error e, w =>
    (none, w.emit { severity := .error, message := "external invocation failed"
                    fields := [("error", .str e)] })

/-- Turns the end of a behaviour into an answer, unless it was an accident. -/
def finish {α : Type} (answer : α → World → Option String × World) :
    Except String α × World → Except String (Option String) × World
  | (.error message, w) => (.error message, w)
  | (.ok a, w) =>
    let (s?, w) := answer a w
    (.ok s?, w)

/-- Runs an action, and notes the call unless it is for the log. -/
def run (upcall : Upcall) (id : CallbackId) (action : Action) (args : String) (w : World) :
    Except String (Option String) × World :=
  match action with
  | .plain respond => (respond args).run upcall id (w.note id (.called args))
  | .blockHash provide =>
    -- a call is noted before its argument is read
    let w := w.note id (.called args)
    match Codec.quantity.decode args with
    | .error e => finish (hashAnswer args) (.ok (.error (CodecError.json e).message), w)
    | .ok number => finish (hashAnswer args) ((provide number).run upcall id w)
  | .external execute =>
    let w := w.note id (.called args)
    match ExternalInvocation.codec.decode args with
    | .error e => finish resultAnswer (.ok (.error (CodecError.json e).message), w)
    | .ok inv => finish resultAnswer ((execute inv).run upcall id w)
  | .log =>
    match LogRecord.codec.decode args with
    | .ok r => (.ok none, w.emit (recordEvent r))
    | .error e =>
      (.ok none, w.emit { severity := .warn, message := "unparseable native log record"
                          fields := [("error", .str (CodecError.json e).message),
                                     ("raw", .str args)] })

end Callback

namespace Proxy

/-- Calls the callback that a registry has for a handle. -/
def dispatch (upcall : Upcall) (registry : Registry) (h : Handle) (args : String) (w : World) :
    Option String × World :=
  match registry.get? h with
  | none =>
    (none, w.emit { severity := .warn, message := "received invoke on unknown callback handle"
                    fields := [Registry.handleField h] })
  | some id =>
    match Callback.run upcall id (w.callbacks[id]?.getD default).action args w with
    | (.ok answer, w) => (answer, w)
    | (.error message, w) =>
      (none, w.emit { severity := .error, message := "callback panicked"
                      fields := [Registry.handleField h, ("panic", .str message)] })

/-- Hands a text to the module in a new buffer, or nothing if there is none to be had. -/
def hand (text : String) (w : World) : Option BufferId × World :=
  let bytes := Utf8.encode text
  match w.buffers.put bytes with
  | (some id, buffers) => (some id, { w with buffers })
  | (none, buffers) =>
    (none, { w with buffers }.emit (
      if Buffers.maxSize < bytes.length + 1 then
        { severity := .warn, message := "callback result too large for a native buffer"
          fields := [("len", .nat bytes.length)] }
      else
        { severity := .warn
          message := "native buffer allocation failed, dropping callback result"
          fields := [("size", .nat (bytes.length + 1))] }))

/-- Answers a call of the module, whose callbacks reach the module through `upcall`. -/
def serve (upcall : Upcall) : Upcall := fun h args? w =>
  match args?.elim (.ok "") fun bytes => BufferError.readText (some bytes) with
  | .error e =>
    (none, w.emit { severity := .warn, message := "unreadable callback arguments"
                    fields := [Registry.handleField h, ("error", .str e.message)] })
  | .ok args =>
    match dispatch upcall w.registry h args w with
    | (none, w) => (none, w)
    | (some answer, w) => hand answer w

/-- The proxy, for calls that nest at most `depth` levels deep. -/
def nested (depth : Nat) : Upcall :=
  match depth with
  | 0 => fun _ _ w => (none, w)
  | depth + 1 => serve (Proxy.nested depth)

end Proxy

end EvmBridge
