/-
Windows of a list that is known in parts.

When a list is written as what stands before a window, the window and what stands behind it,
taking the window out and putting another one in its place are equations of concatenations.  In
this form they pass through the two lanes of a run of words.
-/
import FieldStore.Machine.Lanes

namespace FieldStore

variable {α β ε : Type}

theorem window_append {start count : Nat} {front block back : List α}
    (hstart : front.length = start) (hcount : block.length = count) :
    window start count (front ++ block ++ back) = block := by
  subst hstart hcount
  rw [window, List.append_assoc, List.drop_left, List.take_left]

theorem overwrite_append {start : Nat} {front old back patch : List α}
    (hstart : front.length = start) (hold : old.length = patch.length) :
    overwrite start patch (front ++ old ++ back) = front ++ patch ++ back := by
  subst hstart
  have hdrop : (front ++ old ++ back).drop (front.length + patch.length) = back := by
    rw [← hold, ← List.length_append, List.drop_left]
  rw [overwrite, hdrop, List.append_assoc front old, List.take_left]

/-- What is put in within a block changes nothing around the block. -/
theorem overwrite_within_append {start : Nat} {front block back patch : List α}
    (h : start + patch.length ≤ block.length) :
    overwrite (front.length + start) patch (front ++ block ++ back)
      = front ++ overwrite start patch block ++ back := by
  have htake : (block ++ back).take start = block.take start :=
    List.take_append_of_le_length (by omega)
  have hdrop : (block ++ back).drop (start + patch.length)
      = block.drop (start + patch.length) ++ back := List.drop_append_of_le_length h
  rw [overwrite, overwrite, List.append_assoc front, Nat.add_assoc, List.take_length_add_append,
    List.drop_length_add_append, htake, hdrop]
  simp only [List.append_assoc]

theorem window_whole {n : Nat} {list : List α} (h : list.length = n) : window 0 n list = list := by
  rw [window, List.drop_zero, ← h, List.take_length]

theorem overwrite_whole {patch list : List α} (h : patch.length = list.length) :
    overwrite 0 patch list = patch := by
  rw [overwrite, List.take_zero, List.nil_append, Nat.zero_add, h, List.drop_length,
    List.append_nil]

theorem map_window (f : α → β) (start count : Nat) (list : List α) :
    (window start count list).map f = window start count (list.map f) := by
  simp only [window, List.map_take, List.map_drop]

theorem map_overwrite (f : α → β) (start : Nat) (patch list : List α) :
    (overwrite start patch list).map f = overwrite start (patch.map f) (list.map f) := by
  simp only [overwrite, List.map_append, List.map_take, List.map_drop, List.length_map]

/-! ### Entry by entry

Windows that lie within or beside one another are compared by what stands at each position. -/

theorem getElem?_window (start count i : Nat) (list : List α) :
    (window start count list)[i]? = if i < count then list[start + i]? else none := by
  rw [window, List.getElem?_take, List.getElem?_drop]

theorem getElem?_overwrite {start : Nat} {patch list : List α} (i : Nat)
    (h : start ≤ list.length) :
    (overwrite start patch list)[i]? =
      if i < start then list[i]?
      else if i < start + patch.length then patch[i - start]? else list[i]? := by
  have hfront : (list.take start).length = start := by
    rw [List.length_take]
    omega
  rw [overwrite, List.append_assoc, List.getElem?_append, hfront, List.getElem?_append,
    List.getElem?_take, List.getElem?_drop]
  by_cases hi : i < start
  · rw [if_pos hi, if_pos hi, if_pos hi]
  · rw [if_neg hi, if_neg hi]
    by_cases hp : i < start + patch.length
    · rw [if_pos hp, if_pos (by omega)]
    · rw [if_neg hp, if_neg (by omega), show start + patch.length + (i - start - patch.length) = i
        by omega]

/-- A window of a window. -/
theorem window_window {start count outer width : Nat} {list : List α} (h : start + count ≤ width) :
    window start count (window outer width list) = window (outer + start) count list := by
  apply List.ext_getElem?
  intro i
  simp only [getElem?_window]
  by_cases hi : i < count
  · rw [if_pos hi, if_pos hi, if_pos (by omega), Nat.add_assoc]
  · rw [if_neg hi, if_neg hi]

/-- What is put in beside a window leaves the window as it is. -/
theorem window_overwrite_apart {start outer width : Nat} {patch list : List α}
    (hstart : start ≤ list.length)
    (h : start + patch.length ≤ outer ∨ outer + width ≤ start) :
    window outer width (overwrite start patch list) = window outer width list := by
  apply List.ext_getElem?
  intro i
  simp only [getElem?_window]
  by_cases hi : i < width
  · rw [if_pos hi, if_pos hi, getElem?_overwrite _ hstart]
    rcases h with h | h
    · rw [if_neg (by omega), if_neg (by omega)]
    · rw [if_pos (by omega)]
  · rw [if_neg hi, if_neg hi]

/-- What is put in within a window is put in there. -/
theorem window_overwrite_within {start outer width : Nat} {patch list : List α}
    (hpatch : start + patch.length ≤ width) (hwidth : outer + width ≤ list.length) :
    window outer width (overwrite (outer + start) patch list)
      = overwrite start patch (window outer width list) := by
  have hlen := length_window hwidth
  apply List.ext_getElem?
  intro i
  rw [getElem?_window, getElem?_overwrite _ (by omega), getElem?_overwrite _ (by omega),
    getElem?_window]
  by_cases hi : i < width
  · rw [if_pos hi, if_pos hi]
    by_cases hs : i < start
    · rw [if_pos hs, if_pos (by omega)]
    · rw [if_neg hs, if_neg (by omega)]
      by_cases hp : i < start + patch.length
      · rw [if_pos hp, if_pos (by omega), show outer + i - (outer + start) = i - start by omega]
      · rw [if_neg hp, if_neg (by omega)]
  · rw [if_neg hi, if_neg hi, if_neg (by omega), if_neg (by omega)]

namespace Lanes

@[simp] theorem length_ints_ofWords (words : List Word) :
    (ofWords words).ints.length = words.length := rfl

@[simp] theorem length_floats_ofWords (words : List Word) :
    (ofWords words).floats.length = words.length := List.length_map ..

/-- One run behind the other, in both views. -/
instance : Append Lanes := ⟨fun front back =>
  ⟨front.ints ++ back.ints, front.floats ++ back.floats⟩⟩

theorem ofWords_append (front back : List Word) :
    ofWords (front ++ back) = ofWords front ++ ofWords back := by
  show ofWords (front ++ back) = Lanes.mk _ _
  rw [ofWords, List.map_append]
  rfl

/-- Splicing the lanes of some words is splicing the words. -/
theorem splice_ofWords {start : Nat} {words patch : List Word}
    (h : start + patch.length ≤ words.length) :
    ((ofWords words).splice start (ofWords patch) : Outcome ε Lanes)
      = .ok (ofWords (overwrite start patch words)) := by
  have hbounds : (ofWords patch).floats.length = (ofWords patch).ints.length ∧
      start + (ofWords patch).ints.length ≤ (ofWords words).ints.length ∧
      start + (ofWords patch).ints.length ≤ (ofWords words).floats.length := by
    simp [h]
  rw [splice, if_pos hbounds]
  simp only [ofWords, map_overwrite]

end Lanes

end FieldStore
