import Scriptlet.Decimal.Shortest

/-!
# Decimals laid out as text

A format of numbers is a record of decisions: which numbers are written out in full and which with
an exponent, whether the exponent carries a plus sign, which way ties between two shortest decimals
go, and what stands for infinity. A number written out in full always has a dot and a digit behind
it.

## Main definitions

* `NumberFormat`, `NumberFormat.render`
-/

namespace Scriptlet

/-- How numbers are written. -/
structure NumberFormat where
  /-- The least power of ten of the leading digit at which a number is written out in full. -/
  plainFrom : Int
  /-- The least power of ten above that at which it no longer is. -/
  plainBelow : Int
  /-- The sign of an exponent that is not negative. -/
  plus : List Char
  /-- Which of two shortest decimals is taken. -/
  tie : Tie
  /-- The text of infinity. -/
  infinity : String

/-- Zeros. -/
def zeros (n : Nat) : List Char := List.replicate n '0'

/-- Digits with a decimal point behind the first `point` of them; zeros stand in for the digits that
are missing on either side. -/
def layPlain (digits : List Char) (point : Int) : List Char :=
  if point ≤ 0 then '0' :: '.' :: zeros (-point).toNat ++ digits
  else if digits.length ≤ point.toNat then
    digits ++ zeros (point.toNat - digits.length) ++ ['.', '0']
  else digits.take point.toNat ++ '.' :: digits.drop point.toNat

/-- Digits with a decimal point behind the first of them, if there are more, and an exponent. -/
def layScientific (plus digits : List Char) (exponent : Int) : List Char :=
  let point := if digits.length ≤ 1 then [] else ['.']
  let sign := if exponent < 0 then ['-'] else plus
  digits.take 1 ++ point ++ digits.drop 1 ++ 'e' :: sign ++ Nat.toDigits 10 exponent.natAbs

namespace NumberFormat

/-- A decimal as text. -/
def layOut (f : NumberFormat) (d : Decimal) : List Char :=
  let digits := Nat.toDigits 10 d.digits
  let leading := d.exponent + digits.length - 1
  if f.plainFrom ≤ leading ∧ leading < f.plainBelow then layPlain digits (leading + 1)
  else layScientific f.plus digits leading

/-- A number as text. -/
def render (f : NumberFormat) (x : Binary64) : String :=
  if x.isInfinite then f.infinity
  else if x.bits = 0 then "0.0"
  else String.ofList (f.layOut (x.shortest f.tie))

end NumberFormat

end Scriptlet
