import EvmBridge.Binary64.Basic

/-!
# The shortest decimal that reads back

A double is printed with the fewest digits that still name it: the decimals that round to it form
an interval, and the coarsest power-of-ten grid with a point in that interval gives the digits.
Of two points of that grid the nearer one counts.
-/

namespace EvmBridge.Binary64

/-- A grid of decimals, held against one double: `digits · 10 ^ place` compares with the double
as `digits · step` with `unit`. -/
structure Grid where
  step : Nat
  /-- A quarter of the distance to the next double. -/
  unit : Nat

/-- The grid of the multiples of `10 ^ place`. -/
def grid (x : Binary64) (place : Int) : Grid where
  step := pow10 place * pow2 (2 - x.exponent)
  unit := pow2 (x.exponent - 2) * pow10 (-place)

/-- Whether the decimal with these digits rounds to the double. -/
def readsBack (x : Binary64) (g : Grid) (digits : Nat) : Bool :=
  let gap := if x.mantissa = leastNormal ∧ minExponent < x.exponent then 1 else 2
  let low := (4 * x.mantissa - gap) * g.unit
  let high := (4 * x.mantissa + 2) * g.unit
  let d := digits * g.step
  if x.mantissa % 2 = 0 then low ≤ d && d ≤ high else low < d && d < high

/-- The digits on this grid that name the double. -/
def digitsOn (x : Binary64) (g : Grid) : Option Nat :=
  let v := 4 * x.mantissa * g.unit
  let below := v / g.step
  let above := below + 1
  match below ≠ 0 && readsBack x g below, readsBack x g above with
  | true, true =>
    let down := v - below * g.step
    let up := above * g.step - v
    some (if down < up then below else if up < down then above else below + below % 2)
  | true, false => some below
  | false, true => some above
  | false, false => none

/-- The digits on the coarsest grid from `10 ^ place` downwards, with their place. -/
def digitsFrom (x : Binary64) : (fuel : Nat) → (place : Int) → Nat × Int
  | 0, place => (0, place)
  | fuel + 1, place =>
    match digitsOn x (grid x place) with
    | some d => (d, place)
    | none => digitsFrom x fuel (place - 1)

/-- The fewest digits that name the double, and the place of the last one. Every double is below
`10 ^ 309`, and none needs a place below `10 ^ -342`. -/
def shortest (x : Binary64) : Nat × Int := digitsFrom x 652 309

/-- An exponent, always with its sign. -/
def signed (e : Int) : List Char :=
  (if e < 0 then '-' else '+') :: Nat.toDigits 10 e.natAbs

/-- The digits with a decimal point where the exponent is small, else in scientific notation:
positional from `10 ^ -5` up to `10 ^ 16`. -/
def layout (digits : List Char) (place : Int) : List Char :=
  let point := (digits.length : Int) + place
  if 0 ≤ place ∧ point ≤ 16 then digits ++ List.replicate place.toNat '0' ++ ['.', '0']
  else if 0 < point ∧ point ≤ 16 then
    digits.take point.toNat ++ '.' :: digits.drop point.toNat
  else if -5 < point ∧ point ≤ 0 then
    '0' :: '.' :: List.replicate (-point).toNat '0' ++ digits
  else
    let mantissa := match digits with
      | [] => []
      | [d] => [d]
      | d :: ds => d :: '.' :: ds
    mantissa ++ 'e' :: signed (point - 1)

def text (x : Binary64) : List Char :=
  let magnitude :=
    if x.isZero then ['0', '.', '0']
    else
      let (d, place) := shortest x
      layout (Nat.toDigits 10 d) place
  if x.negative then '-' :: magnitude else magnitude

end EvmBridge.Binary64
