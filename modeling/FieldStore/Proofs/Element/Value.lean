/-
Which values an element type holds, what words they take and what becomes of them.

`Conforms` is the relation between a type and the values that fit it.  A record may have more
entries than the type declares properties.  `words` lists the words of a conforming value, the
properties of a struct one after the other in declared order.  `stored` is the value that is
left when every number has taken the form of its slot: an integer slot keeps the integer part
modulo 2^32, a floating-point slot the nearest 32-bit number, and an entry that is not declared
is gone.  `held` goes the other way and reads a value off a run of slots.

None of the four looks at lengths or bounds; that the codec agrees with them is shown where it
is opened.
-/
import FieldStore.Element.Decode
import FieldStore.Element.Encode
import FieldStore.Proofs.Machine.Integer

namespace FieldStore

namespace Primitive

/-- The host number that a word stands for in a slot of the given kind. -/
def ofWord (p : Primitive) (w : Word) : Binary64 :=
  match p with
  | .i32 => Binary64.ofWord w
  | .f32 => Binary64.ofBinary32 (Binary32.ofWord w)

/-- What a host number becomes in a slot of the given kind: its integer part wrapped modulo
2^32 into the range of a word, or the nearest 32-bit floating-point number. -/
def stored (p : Primitive) (x : Binary64) : Binary64 :=
  match p with
  | .i32 => Binary64.ofInt (if x.isFinite then x.truncate.bmod 0x100000000 else 0)
  | .f32 => Binary64.ofBinary32 (Binary32.ofBinary64 x)

theorem ofWord_toWord (p : Primitive) (x : Binary64) : p.ofWord (p.toWord x) = p.stored x := by
  cases p with
  | f32 => rfl
  | i32 =>
      simp only [ofWord, toWord, stored, Binary64.ofWord, Binary64.toIntWord_eq]
      by_cases h : x.isFinite = true
      · rw [if_pos h, if_pos h, BitVec.toInt_ofInt]
      · rw [if_neg h, if_neg h]
        rfl

/-- A word that is no NaN in a floating-point slot survives being read and stored again. -/
theorem toWord_ofWord {p : Primitive} {w : Word}
    (h : p = .f32 → (Binary32.ofWord w).isNaN = false) : p.toWord (p.ofWord w) = w := by
  cases p with
  | i32 => exact Binary64.toIntWord_ofWord w
  | f32 => exact congrArg Binary32.bits (Binary32.ofBinary64_ofBinary32 (h rfl))

/-- What has been stored once is stored as the same word again, a NaN included. -/
theorem toWord_stored (p : Primitive) (x : Binary64) : p.toWord (p.stored x) = p.toWord x := by
  cases p with
  | i32 =>
      rw [← ofWord_toWord]
      exact Binary64.toIntWord_ofWord _
  | f32 => exact congrArg Binary32.bits (Binary32.ofBinary64_idem x)

end Primitive

theorem Lanes.numbers_ofWords (p : Primitive) (words : List Word) :
    (Lanes.ofWords words).numbers p = words.map p.ofWord := by
  cases p with
  | i32 => rfl
  | f32 => simp [numbers, ofWords, Primitive.ofWord]

/-- The slots from `start` on, `count` of them, whether or not there are as many. -/
def Lanes.cut (lanes : Lanes) (start count : Nat) : Lanes :=
  ⟨window start count lanes.ints, window start count lanes.floats⟩

namespace ElementType

mutual
/-- Whether a value has the form that a type gives. -/
def Conforms : ElementType → Value → Prop
  | scalar _, .number _ => True
  | vector _ rows, .vector xs => xs.length = rows
  | matrix _ rows cols, .matrix lines =>
      lines.length = rows ∧ ∀ line ∈ lines, line.length = cols
  | struct properties, .record entries => ConformAll properties entries
  | _, _ => False

/-- Whether every property has an entry that conforms to its type. -/
def ConformAll : List (String × ElementType) → Entries Value → Prop
  | [], _ => True
  | (name, ty) :: rest, entries =>
      (∃ value, entries.lookup name = some value ∧ Conforms ty value) ∧ ConformAll rest entries
end

mutual
/-- The words of a conforming value. -/
def words : ElementType → Value → List Word
  | scalar p, .number x => [p.toWord x]
  | vector p _, .vector xs => xs.map p.toWord
  | matrix p _ _, .matrix lines => lines.flatten.map p.toWord
  | struct properties, .record entries => propertyWords properties entries
  | _, _ => []

/-- The words of the properties, one property after the other. -/
def propertyWords : List (String × ElementType) → Entries Value → List Word
  | [], _ => []
  | (name, ty) :: rest, entries =>
      ((entries.lookup name).map (words ty)).getD [] ++ propertyWords rest entries
end

mutual
/-- What a conforming value becomes by being stored. -/
def stored : ElementType → Value → Value
  | scalar p, .number x => .number (p.stored x)
  | vector p _, .vector xs => .vector (xs.map p.stored)
  | matrix p _ _, .matrix lines => .matrix (lines.map fun line => line.map p.stored)
  | struct properties, .record entries => .ofEntries (storedEntries properties entries)
  | _, value => value

/-- The entries of the declared properties, stored. -/
def storedEntries : List (String × ElementType) → Entries Value → List (String × Value)
  | [], _ => []
  | (name, ty) :: rest, entries =>
      ((entries.lookup name).map fun value => (name, stored ty value)).toList
        ++ storedEntries rest entries
end

mutual
/-- The value that a run of slots holds. -/
def held : ElementType → Lanes → Value
  | scalar p, lanes => .number ((lanes.numbers p).headD ⟨0⟩)
  | vector p _, lanes => .vector (lanes.numbers p)
  | matrix p _ cols, lanes => .matrix (Grid.chunks cols (lanes.numbers p))
  | struct properties, lanes => .ofEntries (heldEntries properties 0 lanes)

/-- The entries of the properties, the first of which starts at `start`. -/
def heldEntries : List (String × ElementType) → Nat → Lanes → List (String × Value)
  | [], _, _ => []
  | (name, ty) :: rest, start, lanes =>
      (name, held ty (lanes.cut start ty.slotCount))
        :: heldEntries rest (start + ty.slotCount) lanes
end

end ElementType

end FieldStore
