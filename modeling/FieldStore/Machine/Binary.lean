/-
Words and binary floating-point formats as bit patterns.

A device stores 32-bit words.  The host computes with 64-bit floating-point numbers.  Both are
kept here as what they are, patterns of bits, and their meaning is read off with natural number
arithmetic: a finite pattern stands for `significand * 2 ^ scale` units, a unit being the
smallest subnormal of its format.  Nothing is left to a floating-point unit, so the conversions
built on this can be reasoned about for every pattern, NaNs and signed zeros included.

Two patterns are equal when all bits are.  `Binary64.same` is the other equality, that of
floating-point comparison, under which a NaN differs from itself and the two zeros agree.
-/

namespace FieldStore

/-- One device word.  As an integer it is read in two's complement, by `BitVec.toInt`. -/
abbrev Word : Type := BitVec 32

/-- One byte of device memory. -/
abbrev Byte : Type := BitVec 8

/-- A number in the 32-bit floating-point format: 8 exponent bits, 23 fraction bits. -/
structure Binary32 where
  bits : BitVec 32
  deriving DecidableEq, Inhabited

/-- A number in the 64-bit floating-point format: 11 exponent bits, 52 fraction bits. -/
structure Binary64 where
  bits : BitVec 64
  deriving DecidableEq, Inhabited

namespace Binary32

/-- How many fractions share an exponent: 2^23. -/
def fractions : Nat := 0x800000

/-- How many exponents there are: 2^8. -/
def exponents : Nat := 0x100

/-- The weight of the sign bit: 2^31. -/
def signWeight : Nat := 0x80000000

/-- Whether the sign bit is set. -/
def negative (x : Binary32) : Bool := x.bits.msb

/-- The exponent field. -/
def exponent (x : Binary32) : Nat := x.bits.toNat / fractions % exponents

/-- The fraction field. -/
def fraction (x : Binary32) : Nat := x.bits.toNat % fractions

/-- Neither infinite nor a NaN. -/
def isFinite (x : Binary32) : Bool := x.exponent != 255

/-- Not a number. -/
def isNaN (x : Binary32) : Bool := x.exponent == 255 && x.fraction != 0

/-- The significand, with the leading bit that normal numbers leave out. -/
def significand (x : Binary32) : Nat :=
  if x.exponent = 0 then x.fraction else fractions + x.fraction

/-- The power of two that weighs the significand, in units of 2^-149. -/
def scale (x : Binary32) : Nat := x.exponent - 1

/-- The pattern with the given sign and the given magnitude bits. -/
def ofMagnitude (negative : Bool) (magnitude : Nat) : Binary32 :=
  ⟨BitVec.ofNat 32 ((if negative then signWeight else 0) + magnitude)⟩

/-- The word with these bits. -/
def toWord (x : Binary32) : Word := x.bits

/-- The number with these bits. -/
def ofWord (w : Word) : Binary32 := ⟨w⟩

end Binary32

namespace Binary64

/-- How many fractions share an exponent: 2^52. -/
def fractions : Nat := 0x10000000000000

/-- How many exponents there are: 2^11. -/
def exponents : Nat := 0x800

/-- The weight of the sign bit: 2^63. -/
def signWeight : Nat := 0x8000000000000000

/-- Whether the sign bit is set. -/
def negative (x : Binary64) : Bool := x.bits.msb

/-- The exponent field. -/
def exponent (x : Binary64) : Nat := x.bits.toNat / fractions % exponents

/-- The fraction field. -/
def fraction (x : Binary64) : Nat := x.bits.toNat % fractions

/-- Neither infinite nor a NaN. -/
def isFinite (x : Binary64) : Bool := x.exponent != 2047

/-- Not a number. -/
def isNaN (x : Binary64) : Bool := x.exponent == 2047 && x.fraction != 0

/-- The significand, with the leading bit that normal numbers leave out. -/
def significand (x : Binary64) : Nat :=
  if x.exponent = 0 then x.fraction else fractions + x.fraction

/-- The power of two that weighs the significand, in units of 2^-1074. -/
def scale (x : Binary64) : Nat := x.exponent - 1

/-- The magnitude of a finite number, counted in units of 2^-1074. -/
def units (x : Binary64) : Nat := x.significand <<< x.scale

/-- How many units of 2^-1074 make one. -/
def unitsPerOne : Nat := 1 <<< 1074

/-- The pattern with the given sign and the given magnitude bits. -/
def ofMagnitude (negative : Bool) (magnitude : Nat) : Binary64 :=
  ⟨BitVec.ofNat 64 ((if negative then signWeight else 0) + magnitude)⟩

/-- Whether the number is zero, of either sign. -/
def isZero (x : Binary64) : Bool := x.exponent == 0 && x.fraction == 0

/-- Equality as floating-point comparison has it. -/
def same (x y : Binary64) : Bool :=
  !x.isNaN && !y.isNaN && (x == y || (x.isZero && y.isZero))

end Binary64

end FieldStore
