/-!
# Double precision numbers

A number of a document that is no integer of 64 bits is a double. Doubles are kept exactly, as a
sign, a mantissa and a power of two, and every operation is exact arithmetic followed by one
rounding to the nearest double, ties to the even mantissa.
-/

namespace EvmBridge

/-- The double `± mantissa · 2 ^ exponent`, where the mantissa has at most 53 bits and the
exponent is the least possible. -/
structure Binary64 where
  negative : Bool
  /-- At most 53 bits. -/
  mantissa : Nat
  /-- Between -1074 and 971. -/
  exponent : Int
  deriving DecidableEq, Repr

namespace Binary64

def minExponent : Int := -1074

/-- The greatest exponent of a finite double. -/
def maxExponent : Int := 971

def zero : Binary64 := ⟨false, 0, minExponent⟩

def isZero (x : Binary64) : Bool := x.mantissa = 0

def neg (x : Binary64) : Binary64 := { x with negative := !x.negative }

/-- `2 ^ e` for a natural exponent, and 1 for a negative one. -/
def pow2 (e : Int) : Nat := Nat.pow 2 e.toNat

/-- `10 ^ e` for a natural exponent, and 1 for a negative one. -/
def pow10 (e : Int) : Nat := Nat.pow 10 e.toNat

/-- The least mantissa of 53 bits, `2 ^ 52`. -/
def leastNormal : Nat := 0x10000000000000

/-- The numerator of the magnitude as a ratio. -/
def num (x : Binary64) : Nat := x.mantissa * pow2 x.exponent

/-- The denominator of the magnitude as a ratio. -/
def den (x : Binary64) : Nat := pow2 (-x.exponent)

/-- The quotient rounded to the nearest natural number, ties to even. -/
def roundQuotient (num den : Nat) : Nat :=
  let q := num / den
  let twice := 2 * (num % den)
  if twice < den then q else if den < twice then q + 1 else q + q % 2

/-- The exponent at which the quotient has 53 bits, or the least one. -/
def exponentOf (num den : Nat) : Int :=
  let e := max ((num.log2 : Int) - (den.log2 : Int) - 52) minExponent
  if num * pow2 (-e) / (den * pow2 e) < leastNormal ∧ minExponent < e then e - 1 else e

/-- The double nearest to a quotient, or nothing if that is beyond the finite doubles. -/
def ofRatio (num den : Nat) : Option Binary64 :=
  if num = 0 then some zero
  else
    let e := exponentOf num den
    let m := roundQuotient (num * pow2 (-e)) (den * pow2 e)
    let x : Binary64 := if m = 2 * leastNormal then ⟨false, leastNormal, e + 1⟩ else ⟨false, m, e⟩
    if x.exponent ≤ maxExponent then some x else none

def mul (x y : Binary64) : Option Binary64 := ofRatio (x.num * y.num) (x.den * y.den)

def div (x y : Binary64) : Option Binary64 := ofRatio (x.num * y.den) (x.den * y.num)

/-- The double nearest to a natural number. -/
def ofNat (n : Nat) : Option Binary64 := ofRatio n 1

/-- A magnitude divided by `10 ^ k`, at most `10 ^ 308` at a time. -/
def shrink (x : Binary64) (k : Nat) : Option Binary64 :=
  if k ≤ 308 then do x.div (← ofNat (pow10 k))
  else if x.isZero then some x
  else do
    let y ← x.div (← ofNat (pow10 308))
    shrink y (k - 308)
termination_by k

/-- The magnitude `significand · 10 ^ exponent` as it comes out of one multiplication or of
divisions in double precision; nothing if it is too large. -/
def ofDecimal (significand : Nat) (exponent : Int) : Option Binary64 := do
  let x ← ofNat significand
  if exponent < 0 then x.shrink exponent.natAbs
  else if exponent ≤ 308 then x.mul (← ofNat (pow10 exponent))
  else if x.isZero then some x
  else none

end Binary64

end EvmBridge
