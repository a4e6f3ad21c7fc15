import EvmBridge.Bytes

/-!
# Hexadecimal text

Byte strings and quantities are written in hexadecimal behind the mark `0x`. A byte
string has two lowercase digits per byte; a quantity has no leading zero. Reading is
more liberal than writing: the mark may be missing or be `0X`, and digits may be of
either case.

* `Hex.encode` and `Hex.decode` are the byte strings.
* `Quantity.encode` and `Quantity.decode` are the natural numbers, `Quantity.decodeWord`
  those that fit in 64 bits.
-/

namespace EvmBridge

/-- Why a hexadecimal text does not name a value of the wanted kind. -/
inductive HexFault where
  /-- The text is not hexadecimal, or has an odd number of digits. -/
  | invalidHex (text : String)
  /-- The text names a byte string of another length. -/
  | invalidLength (expected got : Nat)
  /-- The text does not name a number of at most 64 bits. -/
  | outOfRange (text : String)
  deriving DecidableEq, Repr

def HexFault.message : HexFault → String
  | .invalidHex s => "invalid hex string: " ++ s
  | .invalidLength expected got =>
    "invalid length: expected " ++ toString expected ++ " bytes, got " ++ toString got
  | .outOfRange s => "quantity out of range: " ++ s

def HexFault.kind : HexFault → String
  | .invalidHex _ => "InvalidHex"
  | .invalidLength .. => "InvalidLength"
  | .outOfRange _ => "OutOfRange"

namespace Hex

/-- The digit for a number below sixteen, lowercase. -/
def digit (n : Nat) : Char := Nat.digitChar n

/-- The number a hexadecimal digit of either case stands for. -/
def value? (c : Char) : Option Nat :=
  if '0' ≤ c ∧ c ≤ '9' then some (c.toNat - '0'.toNat)
  else if 'a' ≤ c ∧ c ≤ 'f' then some (c.toNat - 'a'.toNat + 10)
  else if 'A' ≤ c ∧ c ≤ 'F' then some (c.toNat - 'A'.toNat + 10)
  else none

/-- Two lowercase digits per byte. -/
def digits : Bytes → List Char
  | [] => []
  | b :: bs => digit (b.toNat / 16) :: digit (b.toNat % 16) :: digits bs

/-- The byte string of an even number of digits. -/
def ofDigits? : List Char → Option Bytes
  | [] => some []
  | [_] => none
  | high :: low :: rest => do
    let h ← value? high
    let l ← value? low
    let bs ← ofDigits? rest
    some (UInt8.ofNat (16 * h + l) :: bs)

/-- The text without one leading mark `0x` or `0X`. -/
def unmarked : List Char → List Char
  | '0' :: 'x' :: rest => rest
  | '0' :: 'X' :: rest => rest
  | cs => cs

/-- The mark `0x`, then two lowercase digits per byte. -/
def encode (bs : Bytes) : String :=
  String.ofList ('0' :: 'x' :: digits bs)

/-- The byte string a text names; the fault quotes the whole text. -/
def decode (s : String) : Except HexFault Bytes :=
  match ofDigits? (unmarked s.toList) with
  | some bs => .ok bs
  | none => .error (.invalidHex s)

end Hex

namespace Quantity

/-- The hexadecimal digits of `n` without leading zeros; zero has one digit. -/
def digits (n : Nat) : List Char :=
  if n < 16 then [Hex.digit n] else digits (n / 16) ++ [Hex.digit (n % 16)]
termination_by n
decreasing_by omega

/-- The mark `0x`, then the digits of `n`. -/
def encode (n : Nat) : String :=
  String.ofList ('0' :: 'x' :: digits n)

/-- One more digit at the right of a number. -/
def push (acc : Nat) (c : Char) : Option Nat :=
  (Hex.value? c).map (16 * acc + ·)

/-- The text without one leading plus sign. -/
def unsigned : List Char → List Char
  | '+' :: rest => rest
  | cs => cs

/-- The number a run of digits stands for; underscores between and after digits count for
nothing, but the run may not begin with one and may not be empty. -/
def ofDigits? : List Char → Option Nat
  | [] => none
  | '_' :: _ => none
  | cs => (cs.filter (· ≠ '_')).foldlM push 0

/-- The number a run of digits stands for, underscores not allowed. -/
def ofPlainDigits? : List Char → Option Nat
  | [] => none
  | cs => cs.foldlM push 0

/-- The number a text names: the mark is optional, one plus sign may precede the digits. -/
def decode (s : String) : Except HexFault Nat :=
  match Hex.unmarked s.toList with
  | [] => .error (.invalidHex s)
  | cs =>
    match ofDigits? (unsigned cs) with
    | some n => .ok n
    | none => .error (.invalidHex s)

/-- The number of at most 64 bits a text names. Only a text without digits is no hexadecimal;
all else that does not name such a number is out of range. -/
def decodeWord (s : String) : Except HexFault UInt64 :=
  match Hex.unmarked s.toList with
  | [] => .error (.invalidHex s)
  | cs =>
    match ofPlainDigits? (unsigned cs) with
    | some n => if n < UInt64.size then .ok (UInt64.ofNat n) else .error (.outOfRange s)
    | none => .error (.outOfRange s)

end Quantity

end EvmBridge
