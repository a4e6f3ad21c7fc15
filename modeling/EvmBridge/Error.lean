import EvmBridge.Files
import EvmBridge.FixedBytes
import EvmBridge.Json.Fault

/-!
# Errors of the module

Why the module refuses a call. Each error is a cause; `EngineError.message` is its wording,
which the envelope of the answer carries.
-/

namespace EvmBridge

/-- Why a text does not name a value of a payload type. -/
inductive CodecError where
  | hex (fault : HexFault)
  | json (fault : Json.Fault)
  deriving DecidableEq, Repr

def CodecError.message : CodecError → String
  | .hex fault => fault.message
  | .json fault => "json error: " ++ fault.message

/-- Why a call of a host callback failed. -/
inductive CallbackError where
  /-- The host has not said where to call. -/
  | noProxy
  /-- The argument holds a NUL character. -/
  | nulInArgument
  /-- The answer is not UTF-8. -/
  | notText
  /-- An answer was expected and none came. -/
  | noResult (h : Handle)
  /-- No answer was expected and one came. -/
  | unexpectedResult (h : Handle)
  deriving DecidableEq, Repr

def CallbackError.message : CallbackError → String
  | .noProxy => "callback proxy not set"
  | .nulInArgument => "argument contains NUL"
  | .notText => "result is not valid UTF-8"
  | .noResult h => "callback " ++ toString h.toInt ++ " returned no result"
  | .unexpectedResult h => "callback " ++ toString h.toInt ++ " returned an unexpected result"

/-- Why arguments are refused. -/
inductive ArgumentError where
  /-- There are none. -/
  | missing
  | superfluous
  /-- They are no value of the type the method takes. -/
  | malformed (fault : Json.Fault)
  deriving DecidableEq, Repr

def ArgumentError.message : ArgumentError → String
  | .missing => "missing arguments"
  | .superfluous => "method takes no arguments"
  | .malformed fault => fault.message

/-- Why a change of a view is refused. -/
inductive StateError where
  /-- The account does not own that much. -/
  | insufficientBalance (address : Address) (owned wanted : Nat)
  /-- The account is empty, so it may not have storage. -/
  | emptyAccount (address : Address)
  deriving DecidableEq, Repr

def StateError.message : StateError → String
  | .insufficientBalance a owned wanted =>
    "insufficient balance for " ++ a.toHex ++ ": have " ++ toString owned ++ " want " ++
      toString wanted
  | .emptyAccount a => "cannot write storage of empty account " ++ a.toHex

/-- Why the module refuses a call. -/
inductive EngineError where
  | methodNotFound (name : String)
  | invalidArguments (cause : ArgumentError)
  /-- The handle names no object. -/
  | invalidHandle (h : Handle)
  /-- The store has no state at this root. -/
  | missingRoot (root : Hash)
  /-- The view has no such revision. -/
  | invalidRevision (id : Int32)
  | state (cause : StateError)
  | tracerNotFound (name : String)
  | callback (cause : CallbackError)
  | io (fault : FileFault)
  | codec (cause : CodecError)
  deriving DecidableEq, Repr

def EngineError.message : EngineError → String
  | .methodNotFound name => "method not found: " ++ name
  | .invalidArguments cause => "invalid arguments: " ++ cause.message
  | .invalidHandle h => "invalid handle: " ++ toString h.toInt
  | .missingRoot root => "missing trie node " ++ root.toHex
  | .invalidRevision id => "invalid revision id: " ++ toString id.toInt
  | .state cause => cause.message
  | .tracerNotFound name => "tracer not found: " ++ name
  | .callback cause => "callback failed: " ++ cause.message
  | .io fault => "io error: " ++ fault.message
  | .codec cause => "encoding error: " ++ cause.message

def EngineError.kind : EngineError → String
  | .methodNotFound _ => "MethodNotFound"
  | .invalidArguments _ => "InvalidArguments"
  | .invalidHandle _ => "InvalidHandle"
  | .missingRoot _ => "MissingRoot"
  | .invalidRevision _ => "InvalidRevision"
  | .state _ => "State"
  | .tracerNotFound _ => "TracerNotFound"
  | .callback _ => "Callback"
  | .io _ => "Io"
  | .codec _ => "Codec"

end EvmBridge
