/-
A run of device words, seen twice.

Whatever crosses the device boundary is a run of 32-bit words.  `Lanes` offers it in two
parallel lists: `ints`, the words themselves, and `floats`, the same words read as
floating-point numbers.  Runs that come from a device agree in both lanes; `Lanes.ofWords` is
the only way the library makes one from words.  The lanes are still two lists, since whoever
decodes may be handed any two, and then takes each slot from the lane of its own kind.

Bytes are little-endian, and a trailing part of a word is dropped.
-/
import FieldStore.Machine.Binary
import FieldStore.Machine.Size
import FieldStore.Machine.Window

namespace FieldStore

/-- The words whose little-endian bytes these are, without a trailing partial word. -/
def wordsOfBytes : List Byte → List Word
  | b₀ :: b₁ :: b₂ :: b₃ :: rest => (b₃ ++ b₂ ++ b₁ ++ b₀ : BitVec 32) :: wordsOfBytes rest
  | _ => []

/-- The four little-endian bytes of a word. -/
def bytesOfWord (w : Word) : List Byte :=
  [w.extractLsb' 0 8, w.extractLsb' 8 8, w.extractLsb' 16 8, w.extractLsb' 24 8]

/-- The little-endian bytes of a run of words. -/
def bytesOfWords (words : List Word) : List Byte := words.flatMap bytesOfWord

/-- The width of a word in bytes. -/
def wordBytes : Nat := 4

/-- A run of words in two parallel views. -/
structure Lanes where
  ints : List Word
  floats : List Binary32
  deriving DecidableEq, Inhabited

namespace Lanes

variable {ε : Type}

/-- Both views of a run of words. -/
def ofWords (words : List Word) : Lanes := ⟨words, words.map Binary32.ofWord⟩

/-- Both views of the words whose bytes these are. -/
def ofBytes (bytes : List Byte) : Lanes := ofWords (wordsOfBytes bytes)

/-- A run of `n` zero words. -/
def zeros (n : Nat) : Lanes := ofWords (List.replicate n 0)

/-- The number of words, counted in the integer view. -/
def length (lanes : Lanes) : Nat := lanes.ints.length

/-- Whether there is no word. -/
def isEmpty (lanes : Lanes) : Bool := lanes.ints.isEmpty

/-- The slots from `start` on, `count` of them, out of both views. -/
def slice (lanes : Lanes) (start count : Nat) : Outcome ε Lanes :=
  if start + count ≤ lanes.ints.length ∧ start + count ≤ lanes.floats.length then
    .ok ⟨window start count lanes.ints, window start count lanes.floats⟩
  else .error (.fault .outOfBounds)

/-- The run with the slots from `start` on replaced, in both views. -/
def splice (lanes : Lanes) (start : Nat) (patch : Lanes) : Outcome ε Lanes :=
  if patch.floats.length = patch.ints.length ∧ start + patch.ints.length ≤ lanes.ints.length ∧
      start + patch.ints.length ≤ lanes.floats.length then
    .ok ⟨overwrite start patch.ints lanes.ints, overwrite start patch.floats lanes.floats⟩
  else .error (.fault .outOfBounds)

end Lanes

end FieldStore
