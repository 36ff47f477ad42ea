import EventSourcing.Double.Basic

/-!
# Double.Shortest -- the shortest decimal that reads back

A finite number is written with the fewest decimal digits that still round to it; of
several such decimals the nearest one is taken, and of two equally near ones the one
with an even last digit.  The digits are found by trying the decimal grids from one
digit to seventeen: on each grid only the two neighbours of the number need a look,
for if any point of the grid rounds to the number, so does one of them.
-/

namespace EventSourcing.Double

set_option autoImplicit false

/-- A decimal `0.d₁d₂… * 10 ^ point`, with the digits as one whole number of `count`
digits. -/
structure Decimal where
  digits : Nat
  count : Nat
  point : Int
  deriving DecidableEq, Repr

/-- The reals that round to `d`, as `(low, high, den)`: those from `low / den` to
`high / den`. -/
def interval (d : Double) : Nat × Nat × Nat :=
  let m := d.mantissa
  -- below a power of two the neighbour is only half as far away
  let low := if m = Nat.pow 2 52 ∧ minExponent < d.exponent then 4 * m - 1 else 4 * m - 2
  let high := 4 * m + 2
  let e := d.exponent - 2
  if 0 ≤ e then (low * Nat.pow 2 e.toNat, high * Nat.pow 2 e.toNat, 1)
  else (low, high, Nat.pow 2 (-e).toNat)

/-- Whether `num / den` rounds to `d`.  The ends of the interval belong to it exactly
when the mantissa is even. -/
def covers (d : Double) (num den : Nat) : Bool :=
  let (low, high, unit) := d.interval
  if d.mantissa % 2 = 0 then low * den ≤ num * unit && num * unit ≤ high * den
  else low * den < num * unit && num * unit < high * den

/-- `num / den * 10 ^ k` as a quotient. -/
def shift10 (num den : Nat) (k : Int) : Nat × Nat :=
  if 0 ≤ k then (num * Nat.pow 10 k.toNat, den) else (num, den * Nat.pow 10 (-k).toNat)

/-- The least `p` with `num / den < 10 ^ p`, found from an estimate that is too small
by no more than `steps`. -/
def magnitude (num den : Nat) : Nat → Int → Int
  | 0, p => p
  | steps + 1, p =>
      let (a, b) := shift10 num den (-p)
      if a < b then p else magnitude num den steps (p + 1)

/-- The neighbour of `d` on the grid of `count` digits that rounds to `d`, if one does;
the nearer of two. -/
def onGrid (d : Double) (point : Int) (count : Nat) : Option Decimal :=
  let (num, den) := d.ratio
  let e : Int := count - point
  let (a, b) := shift10 num den e
  let below := a / b
  let fits (n : Nat) : Bool := let (x, y) := shift10 n 1 (-e); d.covers x y
  let rest := a % b
  let nearer :=
    if 2 * rest < b then below
    else if b < 2 * rest then below + 1
    else below + below % 2
  let other := if nearer = below then below + 1 else below
  if fits nearer then some ⟨nearer, count, point⟩
  else if fits other then some ⟨other, count, point⟩
  else none

/-- The first grid with a hit, from `count` digits on. -/
def firstGrid (d : Double) (point : Int) : Nat → Nat → Decimal
  | 0, count => ⟨d.ratio.1 / d.ratio.2, count, point⟩
  | steps + 1, count => (d.onGrid point count).getD (firstGrid d point steps (count + 1))

def shortest (d : Double) : Decimal :=
  let (num, den) := d.ratio
  let estimate := ((num.log2 : Int) - (den.log2 : Int) - 1) * 30103 / 100000
  d.firstGrid (magnitude num den 4 estimate) 17 1

/-- The digits without the zeros at the end, and the place of the point. -/
def Decimal.significant (x : Decimal) : List Char × Int :=
  let ds := Nat.toDigits 10 x.digits
  let point := x.point + (ds.length - x.count : Int)
  ((ds.reverse.dropWhile (· == '0')).reverse, point)

end EventSourcing.Double
