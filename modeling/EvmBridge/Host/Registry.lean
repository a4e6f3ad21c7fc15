import EvmBridge.Host.Event
import EvmBridge.FixedBytes
import EvmBridge.OrdMap

/-!
# The registry of callbacks

The module can only name callbacks by handles. A registry maps handles to instances: a new
registration takes the least free positive handle, and handle zero is kept for the bridge that
passes on the module's log. A registration is released only by the very instance it belongs to,
so a stale release does no harm.

Each operation gives the registry after it and the events it tells of.
-/

namespace EvmBridge

/-- Names an instance of a callback. -/
abbrev CallbackId := Nat

/-- The callbacks by handle. -/
structure Registry where
  entries : OrdMap Handle CallbackId := ∅

namespace Registry

instance : Inhabited Registry := ⟨{}⟩

/-- The handle of the log bridge. -/
def logHandle : Handle := 0

/-- The handle as it stands in an event. -/
def handleField (h : Handle) : String × Json := ("handle", .int h.toInt)

/-- The least free handle from `candidate` on, among the next `tries`. -/
def search (r : Registry) : (tries candidate : Nat) → Nat
  | 0, candidate => candidate
  | tries + 1, candidate =>
    if r.entries.contains (Int32.ofNat candidate) then r.search tries (candidate + 1)
    else candidate

/-- The least free positive handle. Among one more handles than there are entries one is free. -/
def lowestFree (r : Registry) : Handle := Int32.ofNat (r.search (r.entries.size + 1) 1)

def register (r : Registry) (id : CallbackId) : Handle × Registry × List Event :=
  let h := r.lowestFree
  (h, ⟨r.entries.insert h id⟩,
    [{ severity := .debug, message := "registered callback", fields := [handleField h] }])

/-- Installs the log bridge, in place of an earlier one. -/
def registerLog (r : Registry) (id : CallbackId) : Handle × Registry × List Event :=
  (logHandle, ⟨r.entries.insert logHandle id⟩,
    if r.entries.contains logHandle then
      [{ severity := .debug, message := "replaced log callback",
         fields := [handleField logHandle] }]
    else [])

/-- Releases a registration, if it belongs to this instance. -/
def unregister (r : Registry) (h : Handle) (id : CallbackId) : Bool × Registry × List Event :=
  match r.entries.get? h with
  | none =>
    (false, r, [{
      severity := .warn
      message := "unregister ignored: handle not registered"
      fields := [handleField h] }])
  | some owner =>
    if owner = id then
      (true, ⟨r.entries.erase h⟩,
        [{ severity := .debug, message := "unregistered callback", fields := [handleField h] }])
    else
      -- the handle was taken up again since
      (false, r, [{
        severity := .warn
        message := "unregister ignored: handle belongs to another callback"
        fields := [handleField h] }])

def get? (r : Registry) (h : Handle) : Option CallbackId := r.entries.get? h

def contains (r : Registry) (h : Handle) : Bool := r.entries.contains h

def size (r : Registry) : Nat := r.entries.size

def text (r : Registry) : String :=
  "CallbackRegistry \x7b handles: [" ++
    ", ".intercalate (r.entries.keys.map fun h => toString h.toInt) ++ "] \x7d"

end Registry

/-- A guard of a registration: it releases the registration exactly once. -/
structure Guard where
  handle : Handle
  callback : CallbackId
  released : Bool := false
  deriving DecidableEq, Repr

namespace Guard

/-- Registers an instance under a guard. -/
def register (r : Registry) (id : CallbackId) : Guard × Registry × List Event :=
  let (handle, r, events) := r.register id
  ({ handle, callback := id }, r, events)

/-- Releases the registration, unless that was done before. -/
def release (g : Guard) (r : Registry) : Guard × Registry × List Event :=
  if g.released then (g, r, [])
  else
    let (_, r, events) := r.unregister g.handle g.callback
    ({ g with released := true }, r, events)

def text (g : Guard) : String :=
  "CallbackHandle \x7b handle: " ++ toString g.handle.toInt ++ ", released: " ++
    toString g.released ++ " \x7d"

end Guard

end EvmBridge
