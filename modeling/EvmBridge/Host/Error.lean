import EvmBridge.Error
import EvmBridge.Text.Quoted
import EvmBridge.Text.Utf8

/-!
# Errors of the host

Why the host cannot make use of the module. An operation that failed is an ordinary answer; an
answer that breaks the rules of the boundary is fatal.
-/

namespace EvmBridge

/-- Why a call through the gateway failed. -/
inductive GatewayError where
  /-- The module ran the method and reports a failure. -/
  | operation (method args message : String)
  | protocol (method reason : String)
  /-- A value could not be written or read. -/
  | encoding (cause : CodecError)
  /-- A text for the boundary holds a NUL character. -/
  | invalidString (text : String)
  /-- A path for the boundary is not UTF-8. -/
  | invalidPath (path : Bytes)
  /-- The module could not be loaded. -/
  | library
  /-- The module lacks entry points. -/
  | missingSymbols (names : List String)
  /-- The configuration makes no sense. -/
  | config (text : String)
  /-- The gateway belongs to another module. -/
  | alreadyInitialized
  /-- There is no gateway yet. -/
  | notInitialized
  deriving DecidableEq, Repr

namespace GatewayError

def kind : GatewayError → String
  | operation .. => "Operation"
  | protocol .. => "Protocol"
  | encoding _ => "Encoding"
  | invalidString _ => "InvalidString"
  | invalidPath _ => "InvalidPath"
  | library => "Library"
  | missingSymbols _ => "MissingSymbols"
  | config _ => "Config"
  | alreadyInitialized => "AlreadyInitialized"
  | notInitialized => "NotInitialized"

def message : GatewayError → String
  | operation method args message =>
    method ++ " failed: " ++ message ++ " (args: " ++ args ++ ")"
  | protocol method reason => "protocol violation in " ++ method ++ ": " ++ reason
  | encoding cause => "encoding error: " ++ cause.message
  | invalidString text => "string contains a NUL byte: " ++ Text.quoted text
  | invalidPath path => "path is not valid UTF-8: " ++ Utf8.decodeLossy path
  | library => "library error"
  | missingSymbols names => "missing required symbols: " ++ ", ".intercalate names
  | config text => "invalid configuration: " ++ text
  | alreadyInitialized => "gateway already initialized with a different native module"
  | notInitialized => "gateway not initialized"

/-- Whether the boundary may be in a bad state, so that no call must be repeated. -/
def isFatal : GatewayError → Bool
  | protocol .. | library | missingSymbols _ => true
  | _ => false

/-- The method that failed, if there was one. -/
def method? : GatewayError → Option String
  | operation method .. | protocol method _ => some method
  | _ => none

/-- What the module reports, if it does. -/
def reported? : GatewayError → Option String
  | operation _ _ message => some message
  | _ => none

/-- The text of a path, which must be UTF-8. -/
def pathText (path : Bytes) : Except GatewayError String :=
  match Utf8.decode path with
  | .ok text => .ok text
  | .error _ => .error (.invalidPath path)

end GatewayError

end EvmBridge
