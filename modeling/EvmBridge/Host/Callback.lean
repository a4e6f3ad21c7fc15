import EvmBridge.Host.Error
import EvmBridge.Host.Event
import EvmBridge.Wire.Invocation

/-!
# Callbacks

A callback is code of the host that the module calls by a handle. What it does is described by a
`Behaviour`: a tree of the calls it makes and of the answers it may get, with its own answer at
the leaves. A behaviour may call back into the module any number of times.

Besides plain callbacks, which map a text to a text, there are typed ones: they read their
argument, leave the answer to a behaviour, and write it.
-/

namespace EvmBridge

/-- What code of the host does. -/
inductive Behaviour (α : Type) where
  | answer (a : α)
  /-- Breaks off; the message is that of the accident. -/
  | crash (message : String)
  /-- Calls a method of the module and goes on with the text of the envelope. -/
  | call (method : String) (args : Option String) (next : String → Behaviour α)
  /-- Calls a method through the gateway and goes on with the outcome. -/
  | request (method : String) (args : Option Json)
      (next : Except GatewayError Json → Behaviour α)
  /-- Makes the next creations of buffers fail. -/
  | starve (times : Nat) (next : Behaviour α)
  | note (n : Note) (next : Behaviour α)
  /-- Counts this call, and goes on with how many there were before. -/
  | count (next : Nat → Behaviour α)

/-- What a callback does when it is called. -/
inductive Action where
  /-- Maps its argument to an answer, or to none. -/
  | plain (respond : String → Behaviour (Option String))
  /-- Answers with the hash of a block, or says why it has none. -/
  | blockHash (provide : Nat → Behaviour (Except String Hash))
  /-- Executes an invocation, or says why it cannot. -/
  | external (execute : ExternalInvocation → Behaviour (Except String InvocationResult))
  /-- Passes on a record of the module's log. -/
  | log

/-- An instance of a callback. -/
structure Callback where
  /-- The label under which it notes things. -/
  label : Nat
  action : Action
  /-- How many calls it has counted. -/
  calls : Nat := 0

instance : Inhabited Callback := ⟨⟨0, .log, 0⟩⟩


end EvmBridge
