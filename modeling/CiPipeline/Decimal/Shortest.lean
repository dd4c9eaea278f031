import CiPipeline.Decimal.Binary64
import CiPipeline.Decimal.Digits

/-!
# The shortest decimal of a double

The reals that round to a finite double form an interval. `shortest` tries grids of one to
seventeen significant digits and takes the first grid with a point in that interval; of the two
neighbours of the value on that grid, the nearer one. All arithmetic is on natural numbers.
-/

namespace CiPipeline.Decimal

/-- Which of two equally near candidates is taken. -/
inductive Tie where
  | up
  | even
  deriving DecidableEq, Repr

/-- The number `digits * 10 ^ exponent`. -/
structure Scaled where
  digits : Nat
  exponent : Int
  deriving DecidableEq, Repr

/-- `value`, and the ends of the interval of reals that round to it, as fractions over `scale`. -/
structure Interval where
  low : Nat
  value : Nat
  high : Nat
  scale : Nat
  closed : Bool
  deriving DecidableEq, Repr

/-- The quarter of the last place is the unit: below a power of two the distance to the next double
is half of the distance above it. -/
def Interval.of (x : Binary64) : Interval :=
  let below := if x.fraction = 0 ∧ 1 < x.biasedExponent then 1 else 2
  let unit := 1 <<< (x.exponent - 2).toNat
  { low := (4 * x.significand - below) * unit
    value := 4 * x.significand * unit
    high := (4 * x.significand + 2) * unit
    scale := 1 <<< (2 - x.exponent).toNat
    closed := x.significand % 2 == 0 }

namespace Interval

def holds (i : Interval) (numerator : Nat) : Bool :=
  if i.closed then i.low ≤ numerator && numerator ≤ i.high
  else i.low < numerator && numerator < i.high

/-- The same interval with every number multiplied by `10 ^ -exponent`. -/
def rescale (i : Interval) (exponent : Int) : Interval :=
  let times := Nat.pow 10 (-exponent).toNat
  { i with
    low := i.low * times
    value := i.value * times
    high := i.high * times
    scale := i.scale * Nat.pow 10 exponent.toNat }

/-- The number of digits before the decimal point; zero or less when zeros follow the point. -/
def magnitude (i : Interval) : Int :=
  (ofNat (i.value * Nat.pow 10 400 / i.scale)).length - 400

/-- The whole number nearest to the value, of those in the interval next to it. -/
def neighbour? (tie : Tie) (i : Interval) : Option Nat :=
  let down := i.value / i.scale
  let up := down + 1
  let toDown := i.value - down * i.scale
  let toUp := up * i.scale - i.value
  let preferDown := toDown < toUp || toDown == toUp && tie == .even && down % 2 == 0
  match i.holds (down * i.scale), i.holds (up * i.scale) with
  | true, true => some (if preferDown then down else up)
  | true, false => some down
  | false, true => some up
  | false, false => none

end Interval

/-- Seventeen digits tell any two doubles apart, so the default is never taken. -/
def shortest (tie : Tie) (x : Binary64) : Scaled :=
  let interval := Interval.of x
  let grid (count : Nat) : Option Scaled :=
    let exponent := interval.magnitude - (count + 1 : Nat)
    (interval.rescale exponent).neighbour? tie |>.map fun digits => ⟨digits, exponent⟩
  ((List.range 17).findSome? grid).getD ⟨0, 0⟩

end CiPipeline.Decimal
