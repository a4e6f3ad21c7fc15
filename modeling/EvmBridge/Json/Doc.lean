import EvmBridge.Json.Fault

/-!
# Documents as they are read

A text is read into a `Doc`: a JSON value in which the place where the text stops being JSON is
marked. A decoder walks over it from the front, so of several faults it reports the one that
stands first in the text, and a wrong shape before the broken place is reported as such.

* `Doc.parse` reads a text. It never fails: what cannot be read is `broken`.
* `Doc.toJson` is the value of a document without a broken place.
* `Doc.isSound` says that a document has no broken place, which is all that is asked of a value
  that is skipped.
-/

namespace EvmBridge

/-- A text as it is read. -/
inductive Doc where
  /-- The text stops being JSON here. -/
  | broken
  | null
  | bool (b : Bool)
  /-- A number, or nothing if it is too large for a double. -/
  | num (n : Option Number)
  /-- A text, or nothing if it holds half of a surrogate pair. -/
  | str (s : Option String)
  /-- The items of an array, and whether its end was reached. -/
  | arr (items : List Doc) (closed : Bool)
  /-- The members of an object, and whether its end was reached. A name that is not a text is
  the last one. -/
  | obj (members : List (Doc × Doc)) (closed : Bool)
  deriving Inhabited

namespace Doc

/-! ## Tokens -/

/-- White space between tokens. -/
def isBlank (c : Char) : Bool := c = ' ' || c = '\n' || c = '\t' || c = '\r'

/-- The text behind leading white space. -/
def skipBlanks (cs : List Char) : List Char := cs.dropWhile isBlank

/-- The character a one-letter escape stands for. -/
def escape? (c : Char) : Option Char :=
  if c = '"' then some '"'
  else if c = '\\' then some '\\'
  else if c = '/' then some '/'
  else if c = 'b' then some '\x08'
  else if c = 'f' then some '\x0c'
  else if c = 'n' then some '\n'
  else if c = 'r' then some '\r'
  else if c = 't' then some '\t'
  else none

/-- The number of four hexadecimal digits. -/
def unit? (a b c d : Char) : Option Nat := do
  let a ← Hex.value? a
  let b ← Hex.value? b
  let c ← Hex.value? c
  let d ← Hex.value? d
  some (16 * (16 * (16 * a + b) + c) + d)

/-- Whether a unit is the first half of a surrogate pair. -/
def isLeading (n : Nat) : Bool := 0xd800 ≤ n && n ≤ 0xdbff

/-- Whether a unit is the second half of a surrogate pair. -/
def isTrailing (n : Nat) : Bool := 0xdc00 ≤ n && n ≤ 0xdfff

/-- A text with one more character in front. -/
def push (c : Char) : Option (List Char) × List Char → Option (List Char) × List Char
  | (text, rest) => (text.map (c :: ·), rest)

/-- A text with half of a surrogate pair in it. -/
def unpaired : Option (List Char) × List Char → Option (List Char) × List Char
  | (_, rest) => (none, rest)

/-- Reads a text up to its closing quote: its characters (nothing if half of a surrogate pair
occurs) and what follows. Fails at a control character, a bad escape, or the end. -/
def stringTail : List Char → Option (Option (List Char) × List Char)
  | [] => none
  | '"' :: rest => some (some [], rest)
  | '\\' :: 'u' :: a :: b :: c :: d :: rest =>
    match unit? a b c d with
    | none => none
    | some n =>
      if isTrailing n then (stringTail rest).map unpaired
      else if isLeading n then
        match rest with
        | '\\' :: 'u' :: e :: f :: g :: h :: rest' =>
          match unit? e f g h with
          | none => none
          | some m =>
            if isTrailing m then
              (stringTail rest').map
                (push (Char.ofNat (0x10000 + (n - 0xd800) * 0x400 + (m - 0xdc00))))
            else (stringTail ('\\' :: 'u' :: e :: f :: g :: h :: rest')).map unpaired
        | rest => (stringTail rest).map unpaired
      else (stringTail rest).map (push (Char.ofNat n))
  | '\\' :: c :: rest =>
    match escape? c with
    | some c => (stringTail rest).map (push c)
    | none => none
  | c :: rest =>
    if c = '\\' || c.toNat < 0x20 then none else (stringTail rest).map (push c)

/-- The value of a run of decimal digits. -/
def digitsValue (cs : List Char) : Nat := cs.foldl (fun n c => 10 * n + (c.toNat - 48)) 0

/-- The longest start of a run of digits whose value, behind `acc`, fits in 64 bits; and the
digits it leaves. -/
def wordOf (acc : Nat) : List Char → Nat × List Char
  | [] => (acc, [])
  | c :: cs =>
    let next := 10 * acc + (c.toNat - 48)
    if next < UInt64.size then wordOf next cs else (acc, c :: cs)

/-- The exponent with its sign; beyond 31 bits it only matters that it is huge. -/
def exponentOf (negative : Bool) (digits : List Char) : Int :=
  let e : Int := digitsValue digits
  if negative then -e else e

/-- The magnitude of a number from its digits: whole part, fraction and exponent. -/
def magnitude (whole fraction : List Char) (exponent : Int) : Option Binary64 :=
  let (head, left) := wordOf 0 whole
  let (significand, dropped) := wordOf head fraction
  let scale := (left.length : Int) - ((fraction.length : Int) - dropped.length)
  if 0x80000000 ≤ exponent then
    if significand = 0 then some Binary64.zero else none
  else if exponent ≤ -0x80000000 then some Binary64.zero
  else Binary64.ofDecimal significand (scale + exponent)

/-- A number that is not an integer of 64 bits. -/
def realOf (negative : Bool) (x : Option Binary64) : Option Number :=
  x.map fun x => .real (if negative then x.neg else x)

/-- A number written without fraction and exponent: an integer where 64 bits hold it. Minus zero
is no integer. -/
def wholeOf (negative : Bool) (whole : List Char) : Option Number :=
  let n := digitsValue whole
  if negative then
    if n = 0 || 0x8000000000000000 < n then realOf true (magnitude whole [] 0) else some (.int (-n))
  else if n < UInt64.size then some (.int n)
  else realOf false (magnitude whole [] 0)

/-- The digits at the front, and what follows. -/
def spanDigits (cs : List Char) : List Char × List Char :=
  (cs.takeWhile Char.isDigit, cs.dropWhile Char.isDigit)

/-- The exponent behind `e` or `E`: its sign and digits, and what follows. -/
def exponentTail (cs : List Char) : Option (Int × List Char) :=
  let (negative, cs) := match cs with
    | '+' :: rest => (false, rest)
    | '-' :: rest => (true, rest)
    | cs => (false, cs)
  match spanDigits cs with
  | ([], _) => none
  | (digits, rest) => some (exponentOf negative digits, rest)

/-- What may follow the whole part of a number. -/
def numberTail (negative : Bool) (whole : List Char) :
    List Char → Option (Option Number × List Char)
  | '.' :: cs =>
    match spanDigits cs with
    | ([], _) => none
    | (fraction, 'e' :: rest) | (fraction, 'E' :: rest) =>
      (exponentTail rest).map fun (e, rest) =>
        (realOf negative (magnitude whole fraction e), rest)
    | (fraction, rest) => some (realOf negative (magnitude whole fraction 0), rest)
  | 'e' :: cs | 'E' :: cs =>
    (exponentTail cs).map fun (e, rest) => (realOf negative (magnitude whole [] e), rest)
  | rest => some (wholeOf negative whole, rest)

/-- Reads a number behind its sign. A leading zero stands alone. -/
def unsignedNumber (negative : Bool) (cs : List Char) : Option (Option Number × List Char) :=
  match spanDigits cs with
  | ([], _) => none
  | ('0' :: _ :: _, _) => none
  | (whole, rest) => numberTail negative whole rest

def number : List Char → Option (Option Number × List Char)
  | '-' :: cs => unsignedNumber true cs
  | cs => unsignedNumber false cs

/-! ## Values -/

mutual

/-- Reads one value: the document, and what follows if nothing in it is broken. -/
def value : (fuel : Nat) → List Char → Doc × Option (List Char)
  | 0, _ => (.broken, none)
  | fuel + 1, cs =>
    match skipBlanks cs with
    | 'n' :: 'u' :: 'l' :: 'l' :: rest => (.null, some rest)
    | 't' :: 'r' :: 'u' :: 'e' :: rest => (.bool true, some rest)
    | 'f' :: 'a' :: 'l' :: 's' :: 'e' :: rest => (.bool false, some rest)
    | '"' :: rest =>
      match stringTail rest with
      | some (s, rest) => (.str (s.map String.ofList), some rest)
      | none => (.broken, none)
    | '[' :: rest =>
      match skipBlanks rest with
      | ']' :: rest => (.arr [] true, some rest)
      | rest =>
        -- nothing follows if the end was not reached
        let (vs, rest) := items fuel rest
        (.arr vs rest.isSome, rest)
    | '\x7b' :: rest =>
      match skipBlanks rest with
      | '\x7d' :: rest => (.obj [] true, some rest)
      | rest =>
        let (ms, rest) := members fuel rest
        (.obj ms rest.isSome, rest)
    | cs =>
      match number cs with
      | some (n, rest) => (.num n, some rest)
      | none => (.broken, none)

/-- Reads items up to the closing bracket, at least one. -/
def items : (fuel : Nat) → List Char → List Doc × Option (List Char)
  | 0, _ => ([], none)
  | fuel + 1, cs =>
    match value fuel cs with
    | (v, none) => ([v], none)
    | (v, some rest) =>
      match skipBlanks rest with
      | ',' :: rest =>
        let (vs, rest) := items fuel rest
        (v :: vs, rest)
      | ']' :: rest => ([v], some rest)
      | _ => ([v], none)

/-- Reads members up to the closing brace, at least one. -/
def members : (fuel : Nat) → List Char → List (Doc × Doc) × Option (List Char)
  | 0, _ => ([], none)
  | fuel + 1, cs =>
    match value fuel cs with
    | (.str s, some rest) =>
      match skipBlanks rest with
      | ':' :: rest =>
        match value fuel rest with
        | (v, none) => ([(.str s, v)], none)
        | (v, some rest) =>
          match skipBlanks rest with
          | ',' :: rest =>
            let (ms, rest) := members fuel rest
            ((.str s, v) :: ms, rest)
          | '\x7d' :: rest => ([(.str s, v)], some rest)
          | _ => ([(.str s, v)], none)
      | _ => ([(.str s, .broken)], none)
    | (k, _) => ([(k, .broken)], none)

end

/-- A whole text: one value, and whether only white space follows it. -/
structure Whole where
  doc : Doc
  /-- Nothing but white space follows. -/
  ended : Bool

/-- Reads a whole text. Each character is looked at by at most two nested readers, which bounds
the depth. -/
def parse (s : String) : Whole :=
  let cs := s.toList
  match value (2 * cs.length + 2) cs with
  | (doc, some rest) => ⟨doc, (skipBlanks rest).isEmpty⟩
  | (doc, none) => ⟨doc, false⟩

/-! ## Values of documents -/

/-- The fault of a document that stands where a value of another kind is expected. -/
def mismatch (d : Doc) (expected : String) : Json.Fault :=
  match d with
  | .broken => .malformed
  | .null => .invalidType .null expected
  | .bool b => .invalidType (.bool b) expected
  | .num (some n) => .invalidType (.num n) expected
  | .num none => .malformed
  | .str (some s) => .invalidType (.str s) expected
  | .str none => .malformed
  | .arr _ _ => .invalidType .sequence expected
  | .obj _ _ => .invalidType .map expected

/-- How many arrays and objects may be nested. -/
def maxDepth : Nat := 127

mutual

/-- The value of a document of at most `depth` nested levels, objects in canonical order. -/
def toJson (depth : Nat) : Doc → Except Json.Fault Json
  | .broken => .error .malformed
  | .null => .ok .null
  | .bool b => .ok (.bool b)
  | .num (some n) => .ok (.num n)
  | .num none => .error .malformed
  | .str (some s) => .ok (.str s)
  | .str none => .error .malformed
  | .arr items closed =>
    match depth with
    | 0 => .error .malformed
    | depth + 1 => do
      let vs ← toItems depth items
      if closed then .ok (.arr vs) else .error .malformed
  | .obj members closed =>
    match depth with
    | 0 => .error .malformed
    | depth + 1 => do
      let ms ← toMembers depth members
      if closed then .ok (Json.object ms) else .error .malformed

def toItems (depth : Nat) : List Doc → Except Json.Fault (List Json)
  | [] => .ok []
  | d :: ds => do
    let v ← toJson depth d
    let vs ← toItems depth ds
    .ok (v :: vs)

def toMembers (depth : Nat) : List (Doc × Doc) → Except Json.Fault (List (String × Json))
  | [] => .ok []
  | (.str (some k), d) :: ds => do
    let v ← toJson depth d
    let ms ← toMembers depth ds
    .ok ((k, v) :: ms)
  | _ :: _ => .error .malformed

end

mutual

/-- Whether a document has no broken place. -/
def isSound : Doc → Bool
  | .broken => false
  | .null | .bool _ | .num _ | .str _ => true
  | .arr items closed => areSound items && closed
  | .obj members closed => areSoundMembers members && closed

def areSound : List Doc → Bool
  | [] => true
  | d :: ds => d.isSound && areSound ds

def areSoundMembers : List (Doc × Doc) → Bool
  | [] => true
  | (k, v) :: ms => k.isSound && v.isSound && areSoundMembers ms

end

end Doc

end EvmBridge
