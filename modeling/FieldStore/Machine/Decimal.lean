/-
The exact decimal text of a floating-point number.

Every finite number is a whole number of units of 2^-1074, so its decimal expansion ends: each
further digit takes one factor of two out of the remainder.  The digits are those of the number
itself and not of a rounded neighbour.
-/
import FieldStore.Machine.Binary

namespace FieldStore.Binary64

/-- The decimal digits of `rest` units, a fraction of one, without trailing zeros.  As many
steps as a unit has factors of two are enough. -/
def fractionDigits : Nat → Nat → List Char
  | 0, _ => []
  | steps + 1, rest =>
      if rest = 0 then []
      else
        Nat.digitChar (10 * rest / unitsPerOne) :: fractionDigits steps (10 * rest % unitsPerOne)

/-- The digits in front of the point, with the sign. -/
def wholeText (x : Binary64) : String :=
  let sign := if x.negative then "-" else ""
  sign ++ toString (x.units / unitsPerOne)

/-- The digits behind the point; none for a whole number. -/
def fractionText (x : Binary64) : String :=
  String.ofList (fractionDigits 1074 (x.units % unitsPerOne))

/-- The texts of what has no digits. -/
def specialText (x : Binary64) : String :=
  if x.isNaN then "NaN" else if x.negative then "-inf" else "inf"

/-- The decimal text, a whole number standing without a point. -/
def plainText (x : Binary64) : String :=
  if x.isFinite then
    if x.fractionText.isEmpty then x.wholeText else s!"{x.wholeText}.{x.fractionText}"
  else x.specialText

/-- The decimal text with at least one digit behind the point. -/
def pointText (x : Binary64) : String :=
  if x.isFinite then
    if x.fractionText.isEmpty then s!"{x.wholeText}.0" else s!"{x.wholeText}.{x.fractionText}"
  else x.specialText

end FieldStore.Binary64
