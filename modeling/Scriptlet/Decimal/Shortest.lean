import Scriptlet.Decimal.Binary64

/-!
# The fewest digits that read back

A binary number is written with the fewest decimal digits from which it can be read again. The
values that are read as the number form an interval around it, reaching half way to its neighbours;
the ends belong to it if the significand is even. For one digit, two digits and so on, the two
points of the decimal grid next to the number are tried, and the first grid with a point in the
interval is taken. If both points lie in it, the nearer one is taken, and where they are equally
near the rule for ties decides.

Seventeen digits are always enough.

## Main definitions

* `Decimal`, `Decimal.stripZeros`;
* `Tie`, `Binary64.shortest`.
-/

namespace Scriptlet

/-- A decimal number, `digits * 10 ^ exponent`. -/
structure Decimal where
  /-- The significant digits, read as a number. -/
  digits : Nat
  /-- The power of ten of the last digit. -/
  exponent : Int
  deriving DecidableEq, Inhabited

/-- Which of two decimals that are equally near to a number is taken. -/
inductive Tie where
  /-- The one whose last digit is even. -/
  | toEven
  /-- The larger one. -/
  | up
  deriving DecidableEq, Inhabited

/-- The same decimal without zeros at the end of the digits. -/
def Decimal.stripZeros (d : Decimal) : Decimal :=
  if d.digits ≠ 0 ∧ d.digits % 10 = 0 then stripZeros ⟨d.digits / 10, d.exponent + 1⟩ else d
termination_by d.digits
decreasing_by
  rename_i h
  exact Nat.div_lt_self (Nat.pos_of_ne_zero h.1) (by decide)

/-- A positive rational number with the interval of values that are read as it, all over one
denominator. -/
structure Neighbourhood where
  /-- The numerator of the lower end. -/
  low : Nat
  /-- The numerator of the number. -/
  value : Nat
  /-- The numerator of the upper end. -/
  high : Nat
  /-- The common denominator. -/
  den : Nat
  /-- Whether the ends belong to the interval. -/
  closed : Bool

namespace Neighbourhood

/-- The values that are read as a finite positive number. Counted in a quarter of the number's unit,
the upper end is two above it and the lower end two below it, but only one where the number is the
least of its binade and the numbers below are twice as dense. -/
def of (x : Binary64) : Neighbourhood :=
  let m := x.significand
  let scale := Nat.pow 2 x.binade
  let down := if m = Nat.pow 2 52 ∧ 0 < x.binade then 1 else 2
  { low := (4 * m - down) * scale
    value := 4 * m * scale
    high := (4 * m + 2) * scale
    den := 4 * Nat.pow 2 1074
    closed := m % 2 = 0 }

/-- The same number and interval measured in the unit `10 ^ exponent`, so that the points of that
decimal grid are the natural numbers. -/
def onGrid (v : Neighbourhood) (exponent : Int) : Neighbourhood :=
  if 0 ≤ exponent then { v with den := v.den * Nat.pow 10 exponent.toNat }
  else
    let scale := Nat.pow 10 (-exponent).toNat
    { v with low := v.low * scale, value := v.value * scale, high := v.high * scale }

/-- Whether the point `n` of the grid is read as the number. -/
def contains (v : Neighbourhood) (n : Nat) : Bool :=
  if v.closed then v.low ≤ n * v.den && n * v.den ≤ v.high
  else v.low < n * v.den && n * v.den < v.high

/-- The point of the grid to be taken, if one of the number's two neighbours on it is read as the
number. -/
def pick? (v : Neighbourhood) (tie : Tie) : Option Nat :=
  let below := v.value / v.den
  let twice := 2 * (v.value % v.den)
  match v.contains below, v.contains (below + 1) with
  | false, false => none
  | true, false => some below
  | false, true => some (below + 1)
  | true, true =>
    if twice < v.den then some below
    else if v.den < twice then some (below + 1)
    else
      match tie with
      | .up => some (below + 1)
      | .toEven => some (if below % 2 = 0 then below else below + 1)

end Neighbourhood

namespace Binary64

/-- The number of digits in front of the decimal point of a finite positive number; zero or negative
where the number starts behind the point. No number is below `10 ^ -350`, so shifted by that much
each has a whole part. -/
def magnitude (x : Binary64) : Int :=
  digitCount (x.significand * Nat.pow 2 x.binade * Nat.pow 10 350 / Nat.pow 2 1074) - 350

/-- The shortest decimal that is read as a finite positive number. -/
def shortest (x : Binary64) (tie : Tie) : Decimal :=
  let found := (List.range 17).findSome? fun (n : Nat) =>
    let exponent : Int := x.magnitude - (n + 1)
    (((Neighbourhood.of x).onGrid exponent).pick? tie).map fun digits =>
      Decimal.stripZeros ⟨digits, exponent⟩
  found.getD ⟨0, 0⟩

end Binary64

end Scriptlet
