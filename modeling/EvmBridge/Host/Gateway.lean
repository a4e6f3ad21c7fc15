import EvmBridge.Engine.EntryPoint

/-!
# The gateway

The host calls a method of the module by its name. Arguments cross as JSON, the answer comes back
in a buffer of the module, which is read and released exactly once, and holds an envelope. What
breaks these rules is a violation of the protocol; what the envelope reports as failed is an
ordinary error.
-/

namespace EvmBridge.Gateway

variable {α ρ : Type}

/-- Whether a text can cross the boundary. -/
def crosses (text : String) : Bool := !text.toList.contains '\x00'

/-- Reads the answer to a call and releases its buffer. -/
def receive (id? : Option BufferId) (w : World) : Except BufferError String × World :=
  match id? with
  | none => (.error .null, w)
  | some id =>
    let (bytes, buffers) := w.buffers.take id
    ((Utf8.decode bytes).mapError .notText, { w with buffers })

/-- What an answer means. -/
def interpret (result : Codec ρ) (method args : String) (answer : Except BufferError String) :
    Except GatewayError ρ :=
  match answer with
  | .error e => .error (.protocol method ("unreadable response: " ++ e.message))
  | .ok text =>
    match Envelope.decode result text with
    | .error e => .error (.protocol method ("malformed envelope: " ++ (CodecError.json e).message))
    | .ok (.error message) => .error (.operation method args message)
    | .ok (.ok r) => .ok r

/-- The events that tell of an outcome. -/
def outcomeEvents : Except GatewayError ρ → List Event
  | .error (.operation method _ message) =>
    [{ severity := .debug, message := "native operation failed", detail := some message,
       fields := [("method", .str method)] }]
  | _ => []

/-- Makes a call with arguments that were written before. -/
def exchange (entry : EntryPoint) (result : Codec ρ) (method : String) (args : Option String)
    (w : World) : Except GatewayError ρ × World :=
  if !crosses method then (.error (.invalidString method), w)
  else if !args.all crosses then (.error (.invalidString (args.getD "")), w)
  else
    let w := w.emit { severity := .trace, message := "invoke",
                      fields := [("method", .str method), ("args", .str (args.getD ""))] }
    let (id?, w) := entry (some (Utf8.encode method)) (args.map Utf8.encode) w
    let (answer, w) := receive id? w
    let r := interpret result method (args.getD "") answer
    (r, w.emitAll (outcomeEvents r))

/-- Calls a method by its name. -/
def invoke (entry : EntryPoint) (result : Codec ρ) (method : String) (args : Option Json)
    (w : World) : Except GatewayError ρ × World :=
  exchange entry result method (args.map Json.render) w

def call (entry : EntryPoint) (m : Method Unit ρ) (w : World) : Except GatewayError ρ × World :=
  invoke entry m.result m.name none w

def callWith (entry : EntryPoint) (m : Method α ρ) (params : α) (w : World) :
    Except GatewayError ρ × World :=
  invoke entry m.result m.name (some (m.params.toJson params)) w

end EvmBridge.Gateway
