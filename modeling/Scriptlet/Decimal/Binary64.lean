import Scriptlet.Decimal.Digits

/-!
# Binary numbers of 64 bits

A number literal denotes the binary number of 64 bits that is nearest to its decimal value; a value
half way between two of them goes to the one with the even significand, and one that is too large
for all of them is infinite. A number is kept as its bits, and everything about it is computed with
natural numbers.

Literals have no sign, so only numbers that are not negative occur.

## Implementation notes

All finite numbers are multiples of `2 ^ -1074`, the least positive one. Counted in that unit, a
number with significand `m` in the binade `e` is `m * 2 ^ e`, and its bits are `e * 2 ^ 52 + m`
throughout: below `2 ^ 52` the significand is that of a subnormal number in the binade zero, and
from `2 ^ 52` on its leading bit adds the one that the exponent field is larger than `e`. Rounding
up to `2 ^ 53` carries into the next binade, which is again the right number.

## Main definitions

* `Binary64`, `Binary64.ofRatio`, `Binary64.ofLiteral?`
-/

namespace Scriptlet

/-- A binary number of 64 bits, given by its bits. -/
structure Binary64 where
  /-- The sign, the exponent field and the fraction, from the highest bit down. -/
  bits : UInt64
  deriving DecidableEq, Inhabited

/-- A quotient rounded to the nearest integer, a half to the even one. -/
def roundDiv (num den : Nat) : Nat :=
  let q := num / den
  let r := num % den
  if 2 * r < den ∨ (2 * r = den ∧ q % 2 = 0) then q else q + 1

namespace Binary64

/-- The bits of infinity, above those of every finite number. -/
def infinityBits : Nat := 2047 * Nat.pow 2 52

/-- The number nearest to a quotient. -/
def ofRatio (num den : Nat) : Binary64 :=
  let units := num * Nat.pow 2 1074
  let binade := (units / den).log2 - 52
  let bits := binade * Nat.pow 2 52 + roundDiv units (den * Nat.pow 2 binade)
  ⟨UInt64.ofNat (min bits infinityBits)⟩

/-- Whether the number is infinite. -/
def isInfinite (x : Binary64) : Bool := x.bits.toNat = infinityBits

/-- The binade of a number, in which the unit is `2 ^ binade` times the least positive number. -/
def binade (x : Binary64) : Nat := x.bits.toNat / Nat.pow 2 52 - 1

/-- The significand of a finite number: it is `significand * 2 ^ binade` times the least positive
number. -/
def significand (x : Binary64) : Nat := x.bits.toNat - x.binade * Nat.pow 2 52

end Binary64

/-- The number that a literal denotes: digits, or digits, a dot and digits. -/
def Binary64.ofLiteral? (s : String) : Option Binary64 := do
  let whole := s.toList.takeWhile (· != '.')
  let n ← digits? whole
  match s.toList.drop whole.length with
  | [] => return ofRatio n 1
  | _ :: fraction =>
    let _ ← digits? fraction
    let m ← digitsFrom? n fraction
    return ofRatio m (Nat.pow 10 fraction.length)

end Scriptlet
