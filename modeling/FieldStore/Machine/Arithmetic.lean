/-
The arithmetic on host numbers that conversion to integers is made of.

An operation on finite numbers is carried out exactly, in units of 2^-1074, and its result is
rounded to the nearest number of the format, a tie going to the even one.  Each of the operations
that follow does so, whether or not its result ever needs it.

Rounding needs no case for subnormals, carries or overflow.  The magnitude bits of consecutive
non-negative patterns are consecutive numbers, so a quotient that was rounded up to the next
power of two lands on the first pattern of the next binade by itself, and everything from 2^1024
on is cut down to the pattern of infinity.
-/
import FieldStore.Machine.Binary

namespace FieldStore

/-- The quotient rounded to the nearest natural number, a tie going to the even one. -/
def roundHalfEven (n d : Nat) : Nat :=
  let quotient := n / d
  let twice := 2 * (n % d)
  if twice < d ∨ (twice = d ∧ quotient % 2 = 0) then quotient else quotient + 1

namespace Binary64

/-- The magnitude bits of infinity. -/
def infinity : Nat := 2047 * fractions

/-- The magnitude bits nearest to `units` times 2^-1074.  With `shift` binades above the lowest
two, the spacing of the format is 2^shift such units. -/
def nearestMagnitude (units : Nat) : Nat :=
  let shift := units.log2 - 52
  min (shift * fractions + roundHalfEven units (1 <<< shift)) infinity

/-- The number nearest to that many units, with the given sign. -/
def ofUnits (negative : Bool) (units : Nat) : Binary64 :=
  ofMagnitude negative (nearestMagnitude units)

/-- The units of a finite number with its sign. -/
def signedUnits (x : Binary64) : Int := if x.negative then -(x.units : Int) else x.units

/-- Whether a number is below zero, which a zero of either sign is not. -/
def belowZero (x : Binary64) : Bool := x.negative && !x.isZero && !x.isNaN

/-- The number without its sign. -/
def abs (x : Binary64) : Binary64 := ofMagnitude false (x.exponent * fractions + x.fraction)

/-- The number without its fractional part.  It keeps its sign, also where only a zero is left,
and what is not finite stays as it is. -/
def integerPart (x : Binary64) : Binary64 :=
  if x.isFinite then ofUnits x.negative (x.units / unitsPerOne * unitsPerOne) else x

/-- The sum of two finite numbers.  A zero has a sign only if both numbers have. -/
def add (x y : Binary64) : Binary64 :=
  let sum := x.signedUnits + y.signedUnits
  ofUnits (if sum = 0 then x.negative && y.negative else decide (sum < 0)) sum.natAbs

/-- The remainder of a finite number by another one, which is not zero, with the sign of the
number that is divided. -/
def rem (x y : Binary64) : Binary64 := ofUnits x.negative (x.units % y.units)

/-- The remainder that is not below zero. -/
def remEuclid (x y : Binary64) : Binary64 :=
  let remainder := x.rem y
  if remainder.belowZero then remainder.add y.abs else remainder

/-- The largest unsigned integer of 64 bits. -/
def unsignedLimit : Nat := 0xffffffffffffffff

/-- The number as an unsigned integer: without its fractional part, the nearest bound for what is
out of range, and 0 for a NaN. -/
def toUnsigned (x : Binary64) : BitVec 64 :=
  if x.isNaN || x.negative then 0
  else if x.isFinite then BitVec.ofNat 64 (min (x.units / unitsPerOne) unsignedLimit)
  else BitVec.ofNat 64 unsignedLimit

end Binary64

end FieldStore
