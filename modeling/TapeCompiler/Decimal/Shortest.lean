/-!
Decimal digits for binary fractions: the fewest digits that lie closer to the fraction than to any
other of its precision, and of those the nearest.
-/

namespace TapeCompiler.Decimal

/-- The fraction `mantissa * 2 ^ exponent`. Its neighbour below is half as far away as the one
above if `narrow` holds. -/
structure Fraction where
  mantissa : Nat
  exponent : Int
  narrow : Bool
deriving DecidableEq, Repr

/-- The fraction behind the sign of a finite number. -/
def Fraction.ofFloat (f : Float) : Fraction :=
  let bits := f.toBits.toNat
  let biased : Nat := bits / 0x10000000000000 % 0x800
  let low : Nat := bits % 0x10000000000000
  if biased = 0 then ⟨low, -1074, false⟩
  else ⟨low + 0x10000000000000, (biased : Int) - 1075, low = 0 ∧ 1 < biased⟩

/-- The number `value * 10 ^ exponent`. -/
structure Digits where
  value : Nat
  exponent : Int
deriving DecidableEq, Repr

/-- The numbers that round to a fraction, in units of `10 ^ -places`. -/
structure Interval where
  low : Nat
  center : Nat
  high : Nat
  closed : Bool
  places : Nat
deriving DecidableEq, Repr

namespace Interval

/-- A quarter of the distance to the next fraction is a whole number of units. -/
def ofFraction (f : Fraction) : Interval :=
  let quarter := f.exponent - 2
  let factor := if quarter < 0 then Nat.pow 5 quarter.natAbs else Nat.pow 2 quarter.natAbs
  { low := (4 * f.mantissa - if f.narrow then 1 else 2) * factor
    center := 4 * f.mantissa * factor
    high := (4 * f.mantissa + 2) * factor
    closed := f.mantissa % 2 = 0
    places := if quarter < 0 then quarter.natAbs else 0 }

def contains (i : Interval) (x : Nat) : Bool :=
  if i.closed then i.low ≤ x && x ≤ i.high else i.low < x && x < i.high

/-- The number of digits of the fraction itself, written with all its places. -/
def width (i : Interval) : Nat := (Nat.toDigits 10 i.center).length

/-- The nearest number of `count` digits, if it lies in the interval; of two that are equally near
the even one. -/
def digits? (i : Interval) (count : Nat) : Option Digits :=
  let unit := Nat.pow 10 (i.width - count)
  let below := i.center / unit
  let above := below + 1
  let down := i.center - below * unit
  let up := above * unit - i.center
  let exponent : Int := (i.width : Int) - count - i.places
  let belowFits := i.contains (below * unit)
  let aboveFits := i.contains (above * unit)
  let preferBelow := down < up || (down = up && below % 2 = 0)
  if belowFits && (preferBelow || !aboveFits) then some ⟨below, exponent⟩
  else if aboveFits then some ⟨above, exponent⟩
  else none

end Interval

/-- Seventeen digits are always enough. -/
def shortest (f : Fraction) : Digits :=
  let i := Interval.ofFraction f
  ((List.range 17).findSome? fun n => i.digits? (n + 1)).getD ⟨i.center, -(i.places : Int)⟩

end TapeCompiler.Decimal
