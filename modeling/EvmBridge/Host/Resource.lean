import EvmBridge.Host.Gateway

/-!
# Resources

The host's own names for objects of the module. A resource is open until it is closed; this
happens once, and from then on the host has no use for it. Whoever closes a resource hears of a
failure; if it is merely dropped, a failure is told as an event.
-/

namespace EvmBridge

/-- The kinds of resources. -/
inductive ResourceKind where
  | database
  | state
  | tracer
  deriving DecidableEq, Repr

def ResourceKind.name : ResourceKind → String
  | database => "database"
  | state => "state"
  | tracer => "tracer"

/-- A resource. -/
structure Resource where
  kind : ResourceKind
  handle : Handle
  isOpen : Bool := true
  deriving DecidableEq, Repr

namespace Resource

instance : Inhabited Resource := ⟨{ kind := .database, handle := 0 }⟩

/-- The kind and the handle as they stand in an event. -/
def fields (r : Resource) : List (String × Json) :=
  [("kind", .str r.kind.name), ("handle", .int r.handle.toInt)]

/-- The resource of an object that was opened. -/
def opened (kind : ResourceKind) (handle : Handle) (w : World) : Resource × World :=
  let r : Resource := { kind, handle }
  (r, w.emit { severity := .debug, message := "resource opened", fields := r.fields })

/-- A resource from the outcome of a call that opens an object. -/
def ofCall (kind : ResourceKind) :
    Except GatewayError Handle × World → Except GatewayError Resource × World
  | (.error e, w) => (.error e, w)
  | (.ok h, w) =>
    let (r, w) := opened kind h w
    (.ok r, w)

/-- Closes the object of a resource. -/
def releaseObject (entry : EntryPoint) (r : Resource) (w : World) :
    Except GatewayError Unit × World :=
  match r.kind with
  | .database => Gateway.callWith entry .closeStore { databaseHandle := r.handle } w
  | .state => Gateway.callWith entry .closeView { handle := r.handle } w
  | .tracer => Gateway.callWith entry .removeTracer { tracerHandle := r.handle } w

/-- Closes a resource. One that is not open is left alone. -/
def close (entry : EntryPoint) (r : Resource) (w : World) :
    Except GatewayError Unit × Resource × World :=
  if r.isOpen then
    let w := w.emit { severity := .debug, message := "resource closed", fields := r.fields }
    let (outcome, w) := releaseObject entry r w
    (outcome, { r with isOpen := false }, w)
  else (.ok (), r, w)

/-- Closes a resource and tells of a failure. -/
def drop (entry : EntryPoint) (r : Resource) (w : World) : Resource × World :=
  match r.close entry w with
  | (.ok (), r, w) => (r, w)
  | (.error e, r, w) =>
    (r, w.emit { severity := .warn, message := "failed to close resource on drop"
                 fields := r.fields ++ [("error", .str e.message)] })

def text (r : Resource) : String :=
  "ResourceHandle \x7b kind: \"" ++ r.kind.name ++ "\", handle: " ++ toString r.handle.toInt ++
    ", state: " ++ (if r.isOpen then "Open" else "Closed") ++ " \x7d"

def openMemory (entry : EntryPoint) (w : World) : Except GatewayError Resource × World :=
  ofCall .database (Gateway.call entry .openMemory w)

def openDisk (entry : EntryPoint) (path : Bytes) (preimages : Bool) (w : World) :
    Except GatewayError Resource × World :=
  match GatewayError.pathText path with
  | .error e => (.error e, w)
  | .ok path => ofCall .database (Gateway.callWith entry .openDisk { path, preimages } w)

/-- Opens a view on the store of a resource. -/
def openView (entry : EntryPoint) (store : Resource) (root : Hash) (w : World) :
    Except GatewayError Resource × World :=
  ofCall .state (Gateway.callWith entry .openView { databaseHandle := store.handle, root } w)

def createTracer (entry : EntryPoint) (options : TraceOptions) (w : World) :
    Except GatewayError Resource × World :=
  ofCall .tracer (Gateway.callWith entry .createTracer options w)

def dump (entry : EntryPoint) (view : Resource) (path : Bytes) (w : World) :
    Except GatewayError Unit × World :=
  match GatewayError.pathText path with
  | .error e => (.error e, w)
  | .ok dumpFile => Gateway.callWith entry .dump { handle := view.handle, dumpFile } w

end Resource

end EvmBridge
