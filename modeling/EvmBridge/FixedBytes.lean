import EvmBridge.Hex

/-!
# Byte strings of a fixed length

Addresses are byte strings of length 20, hashes of length 32. They are written as
hexadecimal text and ordered byte by byte. `Handle` is the integer that names an object
of the module or a callback of the host.
-/

namespace EvmBridge

/-- A byte string of length `n`. -/
structure FixedBytes (n : Nat) where
  bytes : Bytes
  /-- There are `n` of them. -/
  size_eq : bytes.length = n
  deriving DecidableEq, Repr

abbrev Address := FixedBytes 20

/-- A digest: a state root, a code hash, a storage key or value, a block hash. -/
abbrev Hash := FixedBytes 32

/-- The integer that names an object of the module or a callback of the host, unique within
its category only. -/
abbrev Handle := Int32

namespace FixedBytes

variable {n : Nat}

def zero : FixedBytes n := ⟨List.replicate n 0, by simp⟩

instance : Inhabited (FixedBytes n) := ⟨zero⟩

def isZero (x : FixedBytes n) : Bool := x = zero

/-- A byte string of exactly the right length. -/
def ofBytes (n : Nat) (bs : Bytes) : Except HexFault (FixedBytes n) :=
  if h : bs.length = n then .ok ⟨bs, h⟩ else .error (.invalidLength n bs.length)

/-- The byte string a hexadecimal text names, if it has the right length. -/
def parse (n : Nat) (s : String) : Except HexFault (FixedBytes n) := do
  ofBytes n (← Hex.decode s)

def toHex (x : FixedBytes n) : String := Hex.encode x.bytes

/-- The byte string of length `n` whose last bytes are those of `k`. -/
def ofNat (n k : Nat) : FixedBytes n := ⟨Bytes.bigEndian n k, by simp⟩

/-- The last `m` bytes. -/
def last (m : Nat) (h : m ≤ n) (x : FixedBytes n) : FixedBytes m :=
  ⟨x.bytes.drop (n - m), by simp [x.size_eq]; omega⟩

@[ext] theorem ext {x y : FixedBytes n} (h : x.bytes = y.bytes) : x = y := by
  cases x; cases y; simp_all

/-- Byte strings of one length are ordered byte by byte. -/
instance : Ord (FixedBytes n) := ⟨fun x y => compare x.bytes y.bytes⟩

theorem compare_eq (x y : FixedBytes n) : compare x y = compare x.bytes y.bytes := rfl

instance : Std.TransOrd (FixedBytes n) where
  eq_swap {x y} := by simpa only [compare_eq] using Std.OrientedCmp.eq_swap
  isLE_trans {x y z} h₁ h₂ := by
    simp only [compare_eq] at *
    exact Std.TransCmp.isLE_trans h₁ h₂

instance : Std.LawfulEqOrd (FixedBytes n) where
  compare_self {x} := by simpa only [compare_eq] using Std.ReflCmp.compare_self
  eq_of_compare {x y} h := ext (Std.LawfulEqCmp.eq_of_compare ((compare_eq x y).symm.trans h))

instance : Std.TransOrd Address := inferInstance

instance : Std.LawfulEqOrd Address := inferInstance

instance : Std.TransOrd Hash := inferInstance

instance : Std.LawfulEqOrd Hash := inferInstance

end FixedBytes

end EvmBridge
