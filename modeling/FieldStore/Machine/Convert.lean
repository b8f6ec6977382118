/-
Conversions between host numbers and device words.

Into an integer slot a number goes truncated toward zero and wrapped modulo 2^32, so that an
unsigned mask keeps its bit pattern; numbers without an integer part become 0.  Into a
floating-point slot it goes rounded to the nearest 32-bit number, a tie to the even one.  The
way back is exact in both cases, because every 32-bit integer and every 32-bit floating-point
number is also a 64-bit one.

Rounding to the 32-bit format is done as within the 64-bit one: the magnitude bits of consecutive
patterns are consecutive numbers, and everything from 2^128 on is cut down to the pattern of
infinity.
-/
import FieldStore.Machine.Arithmetic

namespace FieldStore

namespace Binary32

/-- The magnitude bits of infinity. -/
def infinity : Nat := 255 * fractions

/-- The weight of the bit that tells a quiet NaN: 2^22. -/
def quiet : Nat := 0x400000

/-- The magnitude bits nearest to `units` times 2^-1074.  With `shift` binades above the lowest
two, the spacing of the format is 2^(925 + shift) such units. -/
def nearestMagnitude (units : Nat) : Nat :=
  let shift := units.log2 - 948
  min (shift * fractions + roundHalfEven units (1 <<< (925 + shift))) infinity

/-- The 32-bit number nearest to a 64-bit one.  A NaN stays a NaN: it becomes quiet and keeps
its sign and the leading bits of its payload. -/
def ofBinary64 (x : Binary64) : Binary32 :=
  if x.isFinite then ofMagnitude x.negative (nearestMagnitude x.units)
  else if x.isNaN then ofMagnitude x.negative (infinity + (x.fraction >>> 29 ||| quiet))
  else ofMagnitude x.negative infinity

end Binary32

namespace Binary64

/-- The weight of the bit that tells a quiet NaN: 2^51. -/
def quiet : Nat := 0x8000000000000

/-- The magnitude bits of `n * 2 ^ scale` times 2^-149, exact when `n` has at most 53 bits. -/
def exactMagnitude (n scale : Nat) : Nat :=
  if n = 0 then 0
  else (n.log2 + scale + 874) * fractions + (n - 1 <<< n.log2) <<< (52 - n.log2)

/-- The 64-bit number equal to a 32-bit one. -/
def ofBinary32 (x : Binary32) : Binary64 :=
  if x.isFinite then ofMagnitude x.negative (exactMagnitude x.significand x.scale)
  else if x.isNaN then ofMagnitude x.negative (infinity + (x.fraction <<< 29 ||| quiet))
  else ofMagnitude x.negative infinity

/-- The 64-bit number equal to an integer of at most 53 bits. -/
def ofInt (i : Int) : Binary64 :=
  ofMagnitude (decide (i < 0)) (exactMagnitude i.natAbs 149)

/-- The 64-bit number equal to a word read as an integer. -/
def ofWord (w : Word) : Binary64 := ofInt w.toInt

/-- The integer part of a finite number, truncated toward zero. -/
def truncate (x : Binary64) : Int :=
  let magnitude : Int := (x.units / unitsPerOne : Nat)
  if x.negative then -magnitude else magnitude

/-- How many words there are: 2^32. -/
def wordCount : Binary64 := ofInt 0x100000000

/-- The word congruent to the truncated number modulo 2^32, and 0 for NaNs and infinities.  The
remainder is taken among the numbers, where every magnitude has one, and cut down to a word only
then. -/
def toIntWord (x : Binary64) : Word :=
  if x.isFinite then (x.integerPart.remEuclid wordCount).toUnsigned.setWidth 32 else 0

end Binary64

end FieldStore
