import Ecma.Number.Decimal

/-!
# The fewest digits that read back

The reals that round to a finite double form an interval around it, with its ends included exactly
when the significand is even. `Double.shortest` is the decimal in that interval on the coarsest grid
of powers of ten that has a point there; of two such points the nearer one, and of two equally near
ones the one with the even coefficient.
-/

namespace Ecma

namespace Double

/-- The interval of reals that round to a positive finite double, in quarters of the last place. -/
structure Interval where
  /-- The lower end. -/
  low : Nat
  /-- The double itself. -/
  mid : Nat
  /-- The upper end. -/
  high : Nat
  /-- Whether the ends belong to the interval. -/
  closed : Bool
  /-- The binary exponent of a quarter of the last place. -/
  scale : Int
deriving Repr

/-- The rounding interval of a finite non-zero double. Just above a power of two the gap below is
half as wide as the gap above. -/
def interval (x : Double) : Interval :=
  let m := x.significand
  { low := if m = fractionLimit ∧ 1 < x.exponentField then 4 * m - 1 else 4 * m - 2
    mid := 4 * m
    high := 4 * m + 2
    closed := m % 2 == 0
    scale := x.exponent - 2 }

namespace Interval

/-- A quantity of the interval in units of `10 ^ power`, as a numerator over `unit power`. -/
def scaled (i : Interval) (power : Int) (quarters : Nat) : Nat :=
  quarters * pow2 i.scale.toNat * pow10 (-power).toNat

/-- The common denominator of the scaled quantities. -/
def unit (i : Interval) (power : Int) : Nat := pow2 (-i.scale).toNat * pow10 power.toNat

/-- Whether `c · 10 ^ power` lies in the interval. -/
def holds (i : Interval) (power : Int) (c : Nat) : Bool :=
  let point := c * i.unit power
  if i.closed then i.scaled power i.low ≤ point && point ≤ i.scaled power i.high
  else i.scaled power i.low < point && point < i.scaled power i.high

/-- The coefficient of the best point of the grid `10 ^ power` in the interval, if it has one. Only
the two neighbours of the double on the grid can be best. -/
def pick? (i : Interval) (power : Int) : Option Nat :=
  let mid := i.scaled power i.mid
  let unit := i.unit power
  let below := mid / unit
  let above := below + 1
  match i.holds power below, i.holds power above with
  | true, true =>
    let down := mid - below * unit
    let up := above * unit - mid
    if down < up then some below
    else if up < down then some above
    else some (if below % 2 = 0 then below else above)
  | true, false => some below
  | false, true => some above
  | false, false => none

end Interval

/-- The exponent of the smallest power of ten above a positive ratio. -/
def decimalSize (num den : Nat) : Int :=
  if den ≤ num then ((digits (num / den)).length : Int)
  else 1 - ((digits ((den - 1) / num)).length : Int)

/-- The shortest decimal that reads back as the absolute value of a finite non-zero double. No
double needs more than seventeen digits. -/
def shortest (x : Double) : Decimal :=
  let i := x.interval
  let size := decimalSize x.numerator x.denominator
  let found := (List.range 18).findSome? fun (k : Nat) =>
    (i.pick? (size - k)).map fun c => (⟨c, size - k⟩ : Decimal)
  found.getD ⟨x.significand, x.exponent⟩

end Double

end Ecma
