import EvmBridge.Hex
import EvmBridge.Json.Basic
import EvmBridge.Text.Quoted

/-!
# Why a document is not a value of a type

A document is refused either because it is no JSON at all, or because it is JSON of the wrong
shape. `Fault.message` is the wording of the refusal.
-/

namespace EvmBridge.Json

/-- The kind of value that was found where another was expected. -/
inductive Found where
  | null
  | bool (b : Bool)
  | num (n : Number)
  | str (s : String)
  | sequence
  | map
  deriving DecidableEq, Repr

/-- How a message names what was found. -/
def Found.message : Found → String
  | .null => "null"
  | .bool b => "boolean `" ++ toString b ++ "`"
  | .num (.int i) => "integer `" ++ toString i ++ "`"
  | .num (.real x) => "floating point `" ++ String.ofList x.text ++ "`"
  | .str s => "string " ++ Text.quoted s
  | .sequence => "sequence"
  | .map => "map"

/-- What a value is. -/
def found : Json → Found
  | .null => .null
  | .bool b => .bool b
  | .num n => .num n
  | .str s => .str s
  | .arr _ => .sequence
  | .obj _ => .map

/-- Why a document is refused. -/
inductive Fault where
  /-- The text is not JSON. -/
  | malformed
  /-- A member without a default is absent. -/
  | missingField (name : String)
  /-- The type has no member of this name. -/
  | unknownField (name : String) (expected : List String)
  | duplicateField (name : String)
  /-- A value of another kind stands there. -/
  | invalidType (found : Found) (expected : String)
  /-- A value of the right kind but out of range stands there. -/
  | invalidValue (found : Found) (expected : String)
  /-- The type has no variant of this name. -/
  | unknownVariant (name : String) (expected : List String)
  /-- An array has too few or too many items. -/
  | invalidLength (size : Nat) (expected : String)
  /-- A text does not name a value. -/
  | content (fault : HexFault)
  deriving DecidableEq, Repr

/-- A name between grave accents. -/
def ticked (name : String) : String := "`" ++ name ++ "`"

/-- The names to choose from. -/
def oneOf : List String → String
  | [a] => ticked a
  | [a, b] => ticked a ++ " or " ++ ticked b
  | names => "one of " ++ ", ".intercalate (names.map ticked)

def Fault.message : Fault → String
  | .malformed => "malformed JSON"
  | .missingField name => "missing field " ++ ticked name
  | .unknownField name expected =>
    "unknown field " ++ ticked name ++ ", expected " ++ oneOf expected
  | .duplicateField name => "duplicate field " ++ ticked name
  | .invalidType f expected => "invalid type: " ++ f.message ++ ", expected " ++ expected
  | .invalidValue f expected => "invalid value: " ++ f.message ++ ", expected " ++ expected
  | .unknownVariant name expected =>
    "unknown variant " ++ ticked name ++ ", expected " ++ oneOf expected
  | .invalidLength size expected =>
    "invalid length " ++ toString size ++ ", expected " ++ expected
  | .content fault => fault.message

end EvmBridge.Json
