import EvmBridge.World

/-!
# Calls out of the module

The module calls a callback of the host by its handle, and sends the records of its log the same
way. An answer lies in a buffer, which the module reads and releases exactly once.
-/

namespace EvmBridge.Outgoing

/-- Calls a callback and reads its answer. -/
def ask (upcall : Upcall) (h : Handle) (args : String) (w : World) :
    Except CallbackError (Option String) × World :=
  if !w.connected then (.error .noProxy, w)
  else if args.toList.contains '\x00' then (.error .nulInArgument, w)
  else
    match upcall h (some (Utf8.encode args)) w with
    | (none, w) => (.ok none, w)
    | (some id, w) =>
      let (bytes, buffers) := w.buffers.take id
      let w := { w with buffers }
      match Utf8.decode bytes with
      | .ok text => (.ok (some text), w)
      | .error _ => (.error .notText, w)

/-- Calls a callback that must answer or must not. -/
def invoke (upcall : Upcall) (h : Handle) (args : String) (expectResult : Bool) (w : World) :
    Except CallbackError (Option String) × World :=
  match ask upcall h args w with
  | (.error e, w) => (.error e, w)
  | (.ok none, w) => if expectResult then (.error (.noResult h), w) else (.ok none, w)
  | (.ok (some s), w) =>
    if expectResult then (.ok (some s), w) else (.error (.unexpectedResult h), w)

/-- Sends a record of the log, if its level is wanted. Whether it arrives does not matter. -/
def log (upcall : Upcall) (level : Level) (msg : String) (fields : List (String × Json))
    (w : World) : World :=
  match w.sink with
  | none => w
  | some sink =>
    if level.atLeast sink.level && w.connected then
      (invoke upcall sink.handle (level.record msg fields).render false w).2
    else w

/-- Sends the records of a level and above to a callback. A level without meaning counts as that
of information. -/
def setupLog (upcall : Upcall) (h : Handle) (level : String) (w : World) : World :=
  let level := (Level.ofName? level).getD .info
  log upcall .debug "logging configured" [("level", .str level.shortName)]
    { w with sink := some ⟨h, level⟩ }

/-- Calls a callback for a value, which it answers as JSON. -/
def query {α : Type} (upcall : Upcall) (c : Codec α) (h : Handle) (args : String) (w : World) :
    Except EngineError α × World :=
  match invoke upcall h args true w with
  | (.error e, w) => (.error (.callback e), w)
  | (.ok none, w) => (.error (.callback (.noResult h)), w)
  | (.ok (some s), w) => ((c.decode s).mapError fun e => .codec (.json e), w)

end EvmBridge.Outgoing
