/-
Cutting a list into runs of equal length, and the index tuples of a grid.

`collect` walks the list once with the group under way in hand.  It yields the full groups and
whatever is left over, and two operations come out of it: `groups` forgets the rest, `chunks`
keeps it as a last, shorter run.  With `n = 0` no group is ever full.

The tuples of a grid are listed with the last axis varying fastest, which is the order of its
elements in device memory.
-/
import FieldStore.Machine.Size

namespace FieldStore.Grid

variable {α ε : Type}

/-- The full groups of `n` items and the items left over.  The group under way is in `current`,
last item first, and lacks `room` items. -/
def collect (n room : Nat) (current : List α) : List α → List (List α) × List α
  | [] => ([], current.reverse)
  | x :: xs =>
      if room = 1 then
        let (full, rest) := collect n n [] xs
        ((x :: current).reverse :: full, rest)
      else collect n (room - 1) (x :: current) xs

/-- Consecutive groups of `n` items; a trailing partial group is dropped. -/
def groups (n : Nat) (items : List α) : List (List α) := (collect n n [] items).1

/-- Consecutive runs of `n` items, the last one possibly shorter. -/
def chunks (n : Nat) (items : List α) : List (List α) :=
  let (full, rest) := collect n n [] items
  if rest.isEmpty then full else full ++ [rest]

/-- The width of one item, for what a group reserves. -/
def itemWidth : Nat := 32

/-- The groups of `n` items, provided that a group of that length can be held. -/
def groupBy (n : Nat) (items : List α) : Outcome ε (List (List α)) := do
  Size.reserve itemWidth n
  return groups n items

/-- The width of one list handle, for what a list of lists reserves. -/
def listWidth : Nat := 24

/-- The groups of `n` items of the given width, provided that the list of the groups can be held
and so can a group of that length.  Items of a nested array are wider than a list handle, so
`groupBy` need not ask about the list: it takes less room than the items do. -/
def groupItems (width n : Nat) (items : List α) : Outcome ε (List (List α)) := do
  Size.reserve listWidth (items.length / n)
  Size.reserve width n
  return groups n items

/-- The width of one index, for what a list of indices reserves. -/
def indexWidth : Nat := 8

/-- The indices below `n` in ascending order. -/
def indices (n : Nat) : Outcome ε (List Nat) := do
  Size.reserve indexWidth n
  return List.range n

/-- Every index tuple of a grid with the given axes, the last axis varying fastest. -/
def tuples : List Nat → Outcome ε (List (List Nat))
  | [] => .ok [[]]
  | axis :: axes => do
      let inner ← tuples axes
      let count ← Size.mul axis inner.length
      Size.reserve listWidth count
      return (List.range axis).flatMap fun i => inner.map (i :: ·)

end FieldStore.Grid
