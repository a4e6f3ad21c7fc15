import EvmBridge.Buffers
import EvmBridge.Engine.Pool
import EvmBridge.Host.Callback
import EvmBridge.Host.Registry
import EvmBridge.State.View
import EvmBridge.Tracer

/-!
# The world

Everything that lasts from one call to the next, on both sides of the boundary: the objects of
the module, its buffers and where its log goes, the files, the callbacks of the host and the
registry that names them, and the journal of what was observed.

A call of the module is an `Act`: it changes the world and answers, or it ends in a fault and
keeps what it changed before.
-/

namespace EvmBridge

/-- The objects of the module. -/
structure Engine where
  stores : Pool Store := {}
  views : Pool View := {}
  tracers : Pool Tracer := {}

instance : Inhabited Engine := ⟨{}⟩

/-- Where the records of the module's log go. -/
structure Sink where
  handle : Handle
  /-- The least level that is wanted. -/
  level : Level

/-- Everything that lasts. -/
structure World where
  /-- The objects of the module. -/
  engine : Engine := {}
  files : Files := {}
  buffers : Buffers := {}
  /-- Where the module's log goes, if it goes anywhere. -/
  sink : Option Sink := none
  /-- Whether the module was told how to call the host. -/
  connected : Bool := false
  /-- The registry the module reaches. -/
  registry : Registry := {}
  callbacks : List Callback := []
  /-- What was observed, latest first. -/
  journal : List Observation := []
  /-- Answers that are given instead of the module's own, each once. Nothing stands for no
  answer at all. -/
  standIns : List (Option Bytes) := []

namespace World

instance : Inhabited World := ⟨{}⟩

def emit (w : World) (e : Event) : World := { w with journal := .event e :: w.journal }

def emitAll (w : World) (es : List Event) : World := es.foldl emit w

/-- Writes a note of an instance of a callback into the journal. -/
def note (w : World) (id : CallbackId) (n : Note) : World :=
  { w with journal := .note (w.callbacks[id]?.getD default).label n :: w.journal }

def addCallback (w : World) (c : Callback) : CallbackId × World :=
  (w.callbacks.length, { w with callbacks := w.callbacks ++ [c] })

def register (w : World) (id : CallbackId) : Handle × World :=
  let (h, registry, events) := w.registry.register id
  (h, { w with registry }.emitAll events)

def view (w : World) (i : Nat) : View := w.engine.views.get i

def setView (w : World) (i : Nat) (v : View) : World :=
  { w with engine := { w.engine with views := w.engine.views.set i v } }

def store (w : World) (i : Nat) : Store := w.engine.stores.get i

def setStore (w : World) (i : Nat) (s : Store) : World :=
  { w with engine := { w.engine with stores := w.engine.stores.set i s } }

def tracer (w : World) (i : Nat) : Tracer := w.engine.tracers.get i

def setTracer (w : World) (i : Nat) (t : Tracer) : World :=
  { w with engine := { w.engine with tracers := w.engine.tracers.set i t } }

end World

/-- How an act ends if it does not answer. -/
inductive Fault where
  | error (e : EngineError)
  /-- A sum does not fit in its word. -/
  | overflow
  deriving DecidableEq, Repr

def Fault.message : Fault → String
  | .error e => e.message
  | .overflow => "attempt to add with overflow"

/-- A change of the world with an answer. -/
abbrev Act := ExceptT Fault (StateM World)

namespace Act

variable {α : Type}

def refuse (e : EngineError) : Act α := throw (.error e)

/-- Goes on with a value, or refuses. -/
def ofExcept : Except EngineError α → Act α
  | .ok a => pure a
  | .error e => refuse e

def change (f : World → World) : Act Unit := modify f

/-- Acts, and answers how that ended. -/
def attempt (a : Act α) : Act (Except Fault α) := fun w =>
  let (r, w) := a w
  (.ok r, w)

end Act

/-- How the module calls the host: the handle of a callback and a text in, a buffer or nothing
out. -/
abbrev Upcall := Handle → Option Bytes → World → Option BufferId × World

end EvmBridge
