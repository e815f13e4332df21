/-!
# Decimal digits

What a run of decimal digits denotes. Only the ten ASCII digits are digits.

## Main definitions

* `digits?`: the number that digits denote;
* `digitCount`: how many digits a number has.
-/

namespace Scriptlet

/-- The value of a digit, if the character is one. -/
def digitValue? (c : Char) : Option Nat :=
  if '0' ≤ c ∧ c ≤ '9' then some (c.toNat - 48) else none

/-- The number that digits denote, going on from the digits before them; `none` if one of the
characters is no digit. -/
def digitsFrom? : Nat → List Char → Option Nat
  | n, [] => some n
  | n, c :: cs => (digitValue? c).bind fun d => digitsFrom? (10 * n + d) cs

/-- The number that one digit or more denote. -/
def digits? (cs : List Char) : Option Nat := if cs = [] then none else digitsFrom? 0 cs

/-- The number of decimal digits of a natural number. -/
def digitCount (n : Nat) : Nat := (Nat.toDigits 10 n).length

end Scriptlet
