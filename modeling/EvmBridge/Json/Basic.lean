import EvmBridge.Binary64.Shortest
import EvmBridge.OrdMap

/-!
# JSON values

A value keeps the order of its members as they are written. Values that the module builds
without a declared order are *canonical*: the members of every object are sorted by name, byte
by byte, and no name occurs twice.
-/

namespace EvmBridge

/-- A number of a document. -/
inductive Number where
  /-- An integer that fits in 64 bits, signed or unsigned. -/
  | int (i : Int)
  /-- Any other number. -/
  | real (x : Binary64)
  deriving DecidableEq, Repr

/-- A JSON value. -/
inductive Json where
  | null
  | bool (b : Bool)
  | num (n : Number)
  | str (s : String)
  | arr (items : List Json)
  /-- An object, its members in written order. -/
  | obj (members : List (String × Json))
  deriving Repr, Inhabited

namespace Json

def int (i : Int) : Json := .num (.int i)

def nat (n : Nat) : Json := .int n

/-- The object with these members sorted by name; of two members of one name the later counts. -/
def object (members : List (String × Json)) : Json := .obj (OrdMap.ofList members).toList

mutual

/-- The value with the members of every object sorted. -/
def canonical : Json → Json
  | .arr items => .arr (canonicalItems items)
  | .obj members => object (canonicalMembers members)
  | .null => .null
  | .bool b => .bool b
  | .num n => .num n
  | .str s => .str s

def canonicalItems : List Json → List Json
  | [] => []
  | v :: vs => v.canonical :: canonicalItems vs

def canonicalMembers : List (String × Json) → List (String × Json)
  | [] => []
  | (k, v) :: rest => (k, v.canonical) :: canonicalMembers rest

end

end Json

end EvmBridge
