import EvmBridge.Host.Callback

/-!
# Scripted callbacks

A callback can be described by data: what it calls first, whether it then lets creations of
buffers fail, breaks off or fails, and what it answers otherwise. A call counts from the moment
it comes in, so of calls within calls the outermost counts first. A typed callback follows the
script once its argument was read.
-/

namespace EvmBridge

/-- A call of the module that a script makes. -/
structure ScriptedCall where
  method : String
  args : Option String := none

/-- What a script answers. -/
inductive Reply where
  | echo
  /-- How many calls there have been. -/
  | counter
  | const (value : Option String)
  /-- One value after the other, and nothing after the last. -/
  | seq (values : List (Option String))
  | none
  /-- The hash that a table has for a block. -/
  | blockHash (table : List (String × Hash))
  /-- The invocation it was asked to execute, as return data, at a price per level of depth. -/
  | describe
  /-- The result that a value stands for. -/
  | result (value : Json)
  /-- Nothing; the argument is a record of the log. -/
  | log

/-- A scripted callback. -/
structure Script where
  /-- The calls it makes first. -/
  calls : List ScriptedCall := []
  /-- How many creations of buffers it lets fail, if it does. -/
  starve : Option Nat := Option.none
  /-- The message with which it breaks off, if it does. -/
  crash : Option String := Option.none
  /-- The reason for which it fails, if it does. -/
  failure : Option String := Option.none
  /-- What it answers otherwise. -/
  reply : Reply

namespace Script

variable {α : Type}

/-- Makes calls and notes the answers. -/
def callAll (next : Behaviour α) : List ScriptedCall → Behaviour α
  | [] => next
  | c :: cs => .call c.method c.args fun envelope => .note (.answered envelope) (callAll next cs)

/-- What a script does up to its answer. -/
def before (s : Script) (onFailure : String → α) (next : Behaviour α) : Behaviour α :=
  let last := match s.crash, s.failure with
    | some message, _ => .crash message
    | Option.none, some reason => .answer (onFailure reason)
    | Option.none, Option.none => next
  let last := match s.starve with
    | some times => .starve times last
    | Option.none => last
  callAll last s.calls

/-- The gas a described invocation costs per level of depth. -/
def gasPerLevel : Nat := 100

/-- The answer that describes an invocation. -/
def description (inv : ExternalInvocation) : InvocationResult :=
  .success (Utf8.encode (Invocation.codec.encode inv.invocation))
    (UInt64.ofNat (inv.gas.toNat - gasPerLevel * inv.depth.toNat))

/-- What a script does as a callback. -/
def action (s : Script) : Action :=
  match s.reply with
  | .log => .log
  | .blockHash table => .blockHash fun number => s.before .error <| .answer <|
      match table.find? fun e => e.1 = toString number with
      | some (_, hash) => .ok hash
      | Option.none => .error ("unknown block " ++ toString number)
  | .describe => .external fun inv => s.before .error <| .answer (.ok (description inv))
  | .result value => .external fun _ => s.before .error <| .answer <|
      (InvocationResult.codec.ofJson value).mapError Json.Fault.message
  | .echo => .plain fun args => s.before (fun _ => Option.none) <| .answer (some args)
  | .counter => .plain fun _ => .count fun n => s.before (fun _ => Option.none) <|
    .answer (some (toString (n + 1)))
  | .const value => .plain fun _ => s.before (fun _ => Option.none) <| .answer value
  | .seq values => .plain fun _ => .count fun n => s.before (fun _ => Option.none) <|
    .answer (values[n]?.getD Option.none)
  | .none => .plain fun _ => s.before (fun _ => Option.none) <| .answer Option.none

end Script

end EvmBridge
