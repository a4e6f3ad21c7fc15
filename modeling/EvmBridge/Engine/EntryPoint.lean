import EvmBridge.Engine.Service

/-!
# The entry points of the module

What the module offers to the other side of the boundary: calls, buffers, and where to send
callbacks and the log. A call takes texts that end at a zero byte and answers in a new buffer. It
always answers, unless no buffer can be created.
-/

namespace EvmBridge

/-- An entry point for calls: the name of a method and its arguments in, a buffer or nothing
out. -/
abbrev EntryPoint := Option Bytes → Option Bytes → World → Option BufferId × World

namespace EntryPoint

/-- The entry points a module must have. -/
def symbols : List String :=
  ["Invoke", "CreateBuffer", "FreeBuffer", "SetCallbackProxy", "SetupLogging"]

/-- The text that bytes hold before the first zero byte. -/
def text? (bytes? : Option Bytes) : Option String := (BufferError.readText bytes?).toOption

/-- Puts an answer into a buffer. -/
def answer (text : String) (w : World) : Option BufferId × World :=
  let (id?, buffers) := w.buffers.put (Utf8.encode text)
  (id?, { w with buffers })

/-- The answer of a call that cannot be made or breaks off. -/
def failure (message : String) : String := (Envelope.failure message).encode

/-- The text that answers a call. -/
def respond (upcall : Upcall) (method args : Option Bytes) (w : World) : String × World :=
  match text? method with
  | none => (failure "method name is not a valid string", w)
  | some method =>
    if args.isSome && (text? args).isNone then (failure "arguments are not a valid string", w)
    else
      match Service.invoke upcall method (text? args) w with
      | (.ok text, w) => (text, w)
      -- an accident inside stays inside
      | (.error _, w) => (failure "native panic", w)

def invoke (upcall : Upcall) : EntryPoint := fun method args w =>
  let (text, w) := respond upcall method args w
  answer text w

/-- Answers a call, unless there is an answer that stands in for it. -/
def standIn (upcall : Upcall) : EntryPoint := fun method args w =>
  match w.standIns with
  | [] => invoke upcall method args w
  | bytes? :: rest =>
    let w := { w with standIns := rest }
    match bytes? with
    | none => (none, w)
    | some bytes =>
      let (id?, buffers) := w.buffers.put bytes
      (id?, { w with buffers })

/-- Tells the module where its log goes. A level that cannot be read counts as that of
information. -/
def setupLogging (upcall : Upcall) (h : Handle) (level : Option Bytes) (w : World) : World :=
  Outgoing.setupLog upcall h ((text? level).getD "info") w

end EntryPoint

end EvmBridge
