import EvmBridge.Error
import EvmBridge.Wire.Context

/-!
# Tracers

A tracer records the call frames of a transaction as a tree. Frames that have not ended are kept
on a stack, innermost first, each with the frames it has completed so far; a frame that ends
joins the completed frames of the one that opened it. The top frame becomes the recording when it
ends.

A call tracer reports the whole tree, a struct logger a summary of the top frame.
-/

namespace EvmBridge

/-- The kinds of tracers. -/
inductive TracerKind where
  /-- Reports a summary of the top frame. -/
  | structLogger
  /-- Reports the tree of frames. -/
  | call
  deriving DecidableEq, Repr

/-- What is known of a frame when it starts. -/
structure FrameStart where
  opCode : OpCode
  sender : Address
  target : Address
  input : Bytes := []
  gas : UInt64
  value : Option Nat := none
  deriving DecidableEq, Repr

/-- What is known of a frame when it ends. -/
structure FrameEnd where
  output : Bytes := []
  gasUsed : UInt64 := 0
  /-- Why it failed; empty on success. -/
  error : String := ""
  deriving DecidableEq, Repr

/-- A completed frame. -/
inductive Frame where
  /-- How it started, how it ended, and the frames it called, in order. -/
  | node (start : FrameStart) (finish : FrameEnd) (calls : List Frame)
  deriving Repr

namespace Frame

instance : Inhabited Frame := ⟨.node ⟨.call, .zero, .zero, [], 0, none⟩ {} []⟩

def start : Frame → FrameStart
  | node s _ _ => s

def finish : Frame → FrameEnd
  | node _ f _ => f

def calls : Frame → List Frame
  | node _ _ cs => cs

/-- The members of a report that do not depend on the called frames. -/
def ownMembers (s : FrameStart) (f : FrameEnd) : List (String × Json) :=
  [("type", .str s.opCode.name),
   ("from", .str s.sender.toHex),
   ("to", .str s.target.toHex),
   ("input", .str (Hex.encode s.input)),
   ("gas", .str (Quantity.encode s.gas.toNat)),
   ("gasUsed", .str (Quantity.encode f.gasUsed.toNat))] ++
  s.value.toList.map (fun v => ("value", .str (Quantity.encode v))) ++
  (if f.output.isEmpty then [] else [("output", .str (Hex.encode f.output))]) ++
  (if f.error.isEmpty then [] else [("error", .str f.error)])

mutual

/-- The report of a frame. What it did not transfer, return, suffer or call is left out. -/
def toJson : Frame → Json
  | node s f calls =>
    let nested := toJsons calls
    Json.object (ownMembers s f ++ if nested.isEmpty then [] else [("calls", .arr nested)])

def toJsons : List Frame → List Json
  | [] => []
  | c :: cs => c.toJson :: toJsons cs

end

end Frame

/-- A frame that has not ended. -/
structure OpenFrame where
  start : FrameStart
  /-- The frames it has completed, in order. -/
  calls : List Frame := []
  deriving Repr

def OpenFrame.close (o : OpenFrame) (finish : FrameEnd) : Frame := .node o.start finish o.calls

/-- A recording tracer. -/
structure Tracer where
  kind : TracerKind
  options : TraceOptions := {}
  /-- The gas limit of the transaction. -/
  gasLimit : UInt64 := 0
  /-- The gas that was left at the end of the transaction. -/
  restGas : Option UInt64 := none
  /-- The frames that have not ended, innermost first. -/
  opened : List OpenFrame := []
  /-- The top frame, once it has ended. -/
  root : Option Frame := none
  /-- How long the top frame took, in nanoseconds. -/
  duration : UInt64 := 0

namespace Tracer

instance : Inhabited Tracer := ⟨{ kind := .structLogger }⟩

/-- A tracer with these options; the empty name is that of the struct logger. -/
def create (options : TraceOptions) : Except EngineError Tracer :=
  if options.tracer = "" then .ok { kind := .structLogger, options }
  else if options.tracer = "callTracer" then .ok { kind := .call, options }
  else .error (.tracerNotFound options.tracer)

def txStart (t : Tracer) (gasLimit : UInt64) : Tracer := { t with gasLimit, restGas := none }

def txEnd (t : Tracer) (restGas : UInt64) : Tracer := { t with restGas := some restGas }

/-- The top frame starts; whatever was recorded before is dropped. -/
def start (t : Tracer) (s : FrameStart) : Tracer := { t with opened := [⟨s, []⟩], root := none }

/-- A nested frame starts. -/
def enter (t : Tracer) (s : FrameStart) : Tracer := { t with opened := ⟨s, []⟩ :: t.opened }

/-- Ends the innermost frame of a stack, if another one is around it. -/
def closeInner (finish : FrameEnd) : List OpenFrame → List OpenFrame
  | inner :: outer :: rest =>
    { outer with calls := outer.calls ++ [inner.close finish] } :: rest
  | stack => stack

/-- A nested frame ends. The outermost open frame is not ended this way. -/
def exit (t : Tracer) (finish : FrameEnd) : Tracer :=
  { t with opened := closeInner finish t.opened }

/-- Ends all frames of a stack, the outermost one in this way and the others without output. -/
def fold (finish : FrameEnd) : List OpenFrame → Option Frame
  | [] => none
  | [outer] => some (outer.close finish)
  | inner :: outer :: rest =>
    fold finish ({ outer with calls := outer.calls ++ [inner.close {}] } :: rest)
termination_by stack => stack.length

/-- The top frame ends. Frames that were left open are part of it. -/
def finish (t : Tracer) (f : FrameEnd) (duration : UInt64) : Tracer :=
  match fold f t.opened with
  | some root => { t with opened := [], root := some root, duration }
  | none => { t with duration }

/-- The summary of a top frame. -/
def summary (t : Tracer) (root : Frame) : Json :=
  Json.object (
    [("gas", .nat root.finish.gasUsed.toNat),
     ("failed", .bool !root.finish.error.isEmpty),
     ("returnValue", .str (String.ofList (Hex.digits root.finish.output))),
     ("structLogs", .arr [])] ++
    (if t.options.enableReturnData then [("gasLimit", .nat t.gasLimit.toNat)] else []) ++
    t.restGas.toList.map fun rest => ("restGas", .nat rest.toNat))

/-- The recording, null before the top frame has ended. -/
def result (t : Tracer) : Json :=
  match t.root with
  | none => .null
  | some root =>
    match t.kind with
    | .call => root.toJson
    | .structLogger => t.summary root

end Tracer

end EvmBridge
