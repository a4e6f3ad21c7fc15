import EvmBridge.Codec.Record

/-!
# Envelopes

Every answer of the module is an envelope. Its error alone decides: empty means success, and
then the result is the payload; otherwise the result means nothing and is not looked at.
-/

namespace EvmBridge

/-- The answer to a call. -/
structure Envelope where
  /-- Why the call failed; empty on success. -/
  error : String
  /-- The payload, if there is one. -/
  result : Option Json := none

namespace Envelope

/-- A successful answer with a payload. -/
def success (result : Json) : Envelope := { error := "", result := some result }

/-- A successful answer without a payload. -/
def empty : Envelope := { error := "" }

/-- A failure. An empty message would read as success, so it is replaced. -/
def failure (message : String) : Envelope :=
  { error := if message.isEmpty then "unknown error" else message }

def isError (e : Envelope) : Bool := !e.error.isEmpty

def codec : Codec Envelope :=
  .record "Envelope" .refused
    (.required "error" .text <| .defaulted "result" (.optional .any) none .done)
    (fun (error, result, ()) => { error, result }) (fun e => (e.error, e.result, ()))

def encode (e : Envelope) : String := codec.encode e

/-- Reads an envelope and its payload: the fault of a text that is no envelope or whose payload
has another type, the error of a failed call, or the payload. An absent payload is null. -/
def decode {α : Type} (c : Codec α) (s : String) : Except Json.Fault (Except String α) := do
  let e ← codec.decode s
  if e.isError then .ok (.error e.error)
  else .ok <$> c.ofJson (e.result.getD .null)

end Envelope

end EvmBridge
