import EvmBridge.Log

/-!
# What can be observed of the host

The host tells what happens in events, and callbacks may note what they are asked and what they
are answered. All of it is kept in one journal, so that the order shows.
-/

namespace EvmBridge

/-- An event the host tells of. -/
structure Event where
  severity : Severity
  /-- Whether it passes on a record of the module's log. -/
  native : Bool := false
  message : String
  /-- What the module says about it, if it is not the host's own story. -/
  detail : Option String := none
  /-- To what it happened. -/
  fields : List (String × Json) := []

/-- What a callback notes. -/
inductive Note where
  /-- It was called with these arguments. -/
  | called (args : String)
  /-- A call it made was answered by this envelope. -/
  | answered (envelope : String)
  deriving DecidableEq, Repr

/-- An entry of the journal. -/
inductive Observation where
  | event (e : Event)
  /-- A note of the callback with this label. -/
  | note (label : Nat) (n : Note)

end EvmBridge
