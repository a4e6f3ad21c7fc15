import EvmBridge.FixedBytes
import EvmBridge.Json.Doc
import EvmBridge.Json.Printer

/-!
# Payload types

A `Codec` says how the values of one type stand in JSON: how one is read from a document, how
one is taken from a value that was read before, and how one is written. Reading a document
reports the first fault in the order of the text.
-/

namespace EvmBridge

structure Codec (α : Type) where
  /-- Reads a document of at most this many nested levels. -/
  read : (depth : Nat) → Doc → Except Json.Fault α
  /-- Takes a value that was read before. -/
  ofJson : Json → Except Json.Fault α
  /-- Writes a value, members in declared order. -/
  toJson : α → Json

namespace Codec

variable {α β : Type}

/-- Reads a text: the value first, then that nothing follows it. -/
def decode (c : Codec α) (s : String) : Except Json.Fault α := do
  let whole := Doc.parse s
  let a ← c.read Doc.maxDepth whole.doc
  if whole.ended then .ok a else .error .malformed

/-- Writes a value as a text. -/
def encode (c : Codec α) (a : α) : String := (c.toJson a).render

/-- The fault of a value that stands where another kind is expected. -/
def mismatch (v : Json) (expected : String) : Json.Fault := .invalidType (Json.found v) expected

def any : Codec Json where
  read := Doc.toJson
  ofJson v := .ok v.canonical
  toJson v := v

/-- A value nobody looks at. -/
def ignored : Codec Unit where
  read _ d := if d.isSound then .ok () else .error .malformed
  ofJson _ := .ok ()
  toJson _ := .null

/-- The null value alone. -/
def unit : Codec Unit where
  read _ d := match d with
    | .null => .ok ()
    | d => .error (d.mismatch "unit")
  ofJson v := match v with
    | .null => .ok ()
    | v => .error (mismatch v "unit")
  toJson _ := .null

def bool : Codec Bool where
  read _ d := match d with
    | .bool b => .ok b
    | d => .error (d.mismatch "a boolean")
  ofJson v := match v with
    | .bool b => .ok b
    | v => .error (mismatch v "a boolean")
  toJson b := .bool b

def text : Codec String where
  read _ d := match d with
    | .str (some s) => .ok s
    | d => .error (d.mismatch "a string")
  ofJson v := match v with
    | .str s => .ok s
    | v => .error (mismatch v "a string")
  toJson s := .str s

/-- An integer between two bounds, whose type has this name. -/
def integer (name : String) (low high : Int) (ofInt : Int → α) (toInt : α → Int) : Codec α where
  read _ d := match d with
    | .num (some (.int i)) => inRange i
    | d => .error (d.mismatch name)
  ofJson v := match v with
    | .num (.int i) => inRange i
    | v => .error (mismatch v name)
  toJson a := .int (toInt a)
where
  /-- The integer, if it lies between the bounds. -/
  inRange (i : Int) : Except Json.Fault α :=
    if low ≤ i ∧ i ≤ high then .ok (ofInt i) else .error (.invalidValue (.num (.int i)) name)

/-- A handle or a revision number. -/
def int32 : Codec Int32 :=
  integer "i32" (-0x80000000) 0x7fffffff Int32.ofInt Int32.toInt

/-- A depth. -/
def word32 : Codec UInt32 :=
  integer "u32" 0 0xffffffff (fun i => UInt32.ofNat i.toNat) (fun n => (n.toNat : Int))

/-- A 64-bit number written in decimal. -/
def word64 : Codec UInt64 :=
  integer "u64" 0 0xffffffffffffffff (fun i => UInt64.ofNat i.toNat) (fun n => (n.toNat : Int))

/-- A value or null. -/
def optional (c : Codec α) : Codec (Option α) where
  read depth d := match d with
    | .null => .ok none
    | d => some <$> c.read depth d
  ofJson v := match v with
    | .null => .ok none
    | v => some <$> c.ofJson v
  toJson a? := match a? with
    | none => .null
    | some a => c.toJson a

/-- A value that stands in JSON as a value of another type, from which it may not be had. -/
def refine (c : Codec β) (get : β → Except HexFault α) (put : α → β) : Codec α where
  read depth d := do
    let b ← c.read depth d
    (get b).mapError .content
  ofJson v := do
    let b ← c.ofJson v
    (get b).mapError .content
  toJson a := c.toJson (put a)

/-- A byte string of fixed length. -/
def fixed (n : Nat) : Codec (FixedBytes n) := text.refine (FixedBytes.parse n) FixedBytes.toHex

def address : Codec Address := fixed 20

def hash : Codec Hash := fixed 32

/-- A natural number as a hexadecimal quantity. -/
def quantity : Codec Nat := text.refine Quantity.decode Quantity.encode

/-- A 64-bit number as a hexadecimal quantity. -/
def quantityWord : Codec UInt64 :=
  text.refine Quantity.decodeWord (fun n => Quantity.encode n.toNat)

/-- A byte string; null is the empty one. -/
def bytes : Codec Bytes :=
  text.optional.refine
    (fun s? => match s? with
      | none => .ok []
      | some s => Hex.decode s)
    (fun bs => some (Hex.encode bs))

/-- An array of values. -/
def list (c : Codec α) : Codec (List α) where
  read depth d := match d, depth with
    | .arr _ _, 0 => .error .malformed
    | .arr items closed, depth + 1 => do
      let as ← items.mapM (c.read depth)
      if closed then .ok as else .error .malformed
    | d, _ => .error (d.mismatch "a sequence")
  ofJson v := match v with
    | .arr items => items.mapM c.ofJson
    | v => .error (mismatch v "a sequence")
  toJson as := .arr (as.map c.toJson)

/-- Reads the members of a map from the front; of two members of one key the later counts. -/
def readEntries [Ord α] [Std.TransOrd α] [Std.LawfulEqOrd α] (key : String → Except HexFault α)
    (c : Codec β) (depth : Nat) : OrdMap α β → List (Doc × Doc) → Except Json.Fault (OrdMap α β)
  | m, [] => .ok m
  | m, (.str (some k), d) :: rest => do
    let a ← (key k).mapError .content
    let b ← c.read depth d
    readEntries key c depth (m.insert a b) rest
  | _, _ :: _ => .error .malformed

/-- Takes the members of a map. -/
def takeEntries [Ord α] [Std.TransOrd α] [Std.LawfulEqOrd α] (key : String → Except HexFault α)
    (c : Codec β) : OrdMap α β → List (String × Json) → Except Json.Fault (OrdMap α β)
  | m, [] => .ok m
  | m, (k, v) :: rest => do
    let a ← (key k).mapError .content
    let b ← c.ofJson v
    takeEntries key c (m.insert a b) rest

/-- A map whose keys are texts. -/
def map [Ord α] [Std.TransOrd α] [Std.LawfulEqOrd α] (key : String → Except HexFault α)
    (ofKey : α → String) (c : Codec β) : Codec (OrdMap α β) where
  read depth d := match d, depth with
    | .obj _ _, 0 => .error .malformed
    | .obj members closed, depth + 1 => do
      let m ← readEntries key c depth ∅ members
      if closed then .ok m else .error .malformed
    | d, _ => .error (d.mismatch "a map")
  ofJson v := match v with
    | .obj members => takeEntries key c ∅ members
    | v => .error (mismatch v "a map")
  toJson m := .obj (m.toList.map fun e => (ofKey e.1, c.toJson e.2))

end Codec

end EvmBridge
