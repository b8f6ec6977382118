/-
Windows of a list.

Slots of a run of words and bytes of a region are both taken out and put back by position.  A
window is what lies between two positions; overwriting puts a patch in its place and leaves
everything else where it was.  Both are total, and mean something only for a window that lies
within the list, which is for the caller to see to.
-/

namespace FieldStore

variable {α : Type}

/-- The `count` entries from `start` on. -/
def window (start count : Nat) (list : List α) : List α := (list.drop start).take count

/-- The list with the entries from `start` on replaced by those of a patch. -/
def overwrite (start : Nat) (patch list : List α) : List α :=
  list.take start ++ patch ++ list.drop (start + patch.length)

theorem length_window {start count : Nat} {list : List α} (h : start + count ≤ list.length) :
    (window start count list).length = count := by
  simp only [window, List.length_take, List.length_drop]
  omega

theorem length_overwrite {start : Nat} {patch list : List α}
    (h : start + patch.length ≤ list.length) :
    (overwrite start patch list).length = list.length := by
  simp only [overwrite, List.length_append, List.length_take, List.length_drop]
  omega

end FieldStore
