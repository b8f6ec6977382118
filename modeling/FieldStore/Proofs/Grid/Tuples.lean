/-
The index tuples of a grid, one for every position.

`tuples` lists exactly the tuples that stay below the ends of the axes, and lists them in the order
of their positions: the one at place `k` has row-major position `k`.  Both follow the recursion on
the axes.  So every position of a grid is that of one of its tuples, which is what writing a field
element by element relies on.
-/
import FieldStore.Proofs.Grid.Nested

namespace FieldStore.Grid

open Shape

variable {ε : Type}

theorem tuples_cons_eq_ok {axis : Nat} {axes : List Nat} {list : List (List Nat)}
    (h : (tuples (axis :: axes) : Outcome ε (List (List Nat))) = .ok list) :
    ∃ inner, (tuples axes : Outcome ε (List (List Nat))) = .ok inner ∧
      listWidth * (axis * inner.length) ≤ Size.objectLimit ∧
      list = (List.range axis).flatMap fun i => inner.map (i :: ·) := by
  rw [tuples, bind_eq_ok] at h
  obtain ⟨inner, hinner, h⟩ := h
  rw [bind_eq_ok] at h
  obtain ⟨count, hcount, h⟩ := h
  rw [bind_eq_ok] at h
  obtain ⟨⟨⟩, hreserve, h⟩ := h
  obtain ⟨rfl, -⟩ := Size.mul_eq_ok_iff.mp hcount
  cases h
  exact ⟨inner, hinner, Size.reserve_eq_ok_iff.mp hreserve, rfl⟩

/-- The tuples are those that denote an element. -/
theorem mem_tuples_iff :
    ∀ {axes : List Nat} {list : List (List Nat)},
      (tuples axes : Outcome ε (List (List Nat))) = .ok list →
        ∀ indices, indices ∈ list ↔ Within indices axes := by
  intro axes
  induction axes with
  | nil =>
      intro list h indices
      cases h
      cases indices with
      | nil => exact iff_of_true (by simp) trivial
      | cons => exact iff_of_false (by simp) id
  | cons axis axes ih =>
      intro list h indices
      obtain ⟨inner, hinner, -, rfl⟩ := tuples_cons_eq_ok h
      cases indices with
      | nil => exact iff_of_false (by simp) id
      | cons index indices =>
          rw [Within, ← ih hinner]
          simp only [List.mem_flatMap, List.mem_range, List.mem_map, List.cons.injEq]
          constructor
          · intro hmem
            obtain ⟨i, hi, tuple, htuple, rfl, rfl⟩ := hmem
            exact ⟨hi, htuple⟩
          · intro hboth
            exact ⟨index, hboth.1, indices, hboth.2, rfl, rfl⟩

/-- Counting in two digits, the lower one running up to `b`. -/
theorem flatMap_range_mul (a b : Nat) :
    ((List.range a).flatMap fun i => (List.range b).map (i * b + ·)) = List.range (a * b) := by
  induction a with
  | zero => simp
  | succ a ih =>
      rw [List.range_succ, List.flatMap_append, ih, Nat.succ_mul, List.range_add]
      simp

/-- **The tuples come in the order of their positions**, each position once. -/
theorem map_rowMajor_tuples :
    ∀ {axes : List Nat} {list : List (List Nat)},
      (tuples axes : Outcome ε (List (List Nat))) = .ok list →
        (list.map fun indices => rowMajor indices axes) = List.range axes.prod := by
  intro axes
  induction axes with
  | nil =>
      intro list h
      cases h
      rfl
  | cons axis axes ih =>
      intro list h
      obtain ⟨inner, hinner, -, rfl⟩ := tuples_cons_eq_ok h
      have hrow : ∀ i, ((inner.map (i :: ·)).map fun indices => rowMajor indices (axis :: axes))
          = (List.range axes.prod).map (i * axes.prod + ·) := by
        intro i
        rw [← ih hinner, List.map_map, List.map_map]
        rfl
      rw [List.map_flatMap, List.prod_cons, ← flatMap_range_mul]
      exact congrArg (List.range axis).flatMap (funext hrow)

theorem rowMajor_of_getElem?_tuples {axes indices : List Nat} {list : List (List Nat)} {k : Nat}
    (h : (tuples axes : Outcome ε (List (List Nat))) = .ok list) (hget : list[k]? = some indices) :
    rowMajor indices axes = k := by
  have hposition : (List.range axes.prod)[k]? = some (rowMajor indices axes) := by
    rw [← map_rowMajor_tuples h, List.getElem?_map, hget]
    rfl
  obtain ⟨hlt, hsame⟩ := List.getElem?_eq_some_iff.mp hposition
  rwa [List.getElem_range, eq_comm] at hsame

theorem length_tuples {axes : List Nat} {list : List (List Nat)}
    (h : (tuples axes : Outcome ε (List (List Nat))) = .ok list) : list.length = axes.prod := by
  have hlen := congrArg List.length (map_rowMajor_tuples h)
  rwa [List.length_map, List.length_range] at hlen

/-- A grid whose tuples can be listed has room for a handle on each. -/
theorem prod_le_of_tuples {axes : List Nat} {list : List (List Nat)} (hne : axes ≠ [])
    (h : (tuples axes : Outcome ε (List (List Nat))) = .ok list) :
    listWidth * axes.prod ≤ Size.objectLimit := by
  cases axes with
  | nil => exact absurd rfl hne
  | cons axis axes =>
      obtain ⟨inner, hinner, hroom, -⟩ := tuples_cons_eq_ok h
      rwa [length_tuples hinner] at hroom

/-- Every position is that of a tuple. -/
theorem exists_tuple_of_lt {axes : List Nat} {list : List (List Nat)} {position : Nat}
    (h : (tuples axes : Outcome ε (List (List Nat))) = .ok list) (hlt : position < axes.prod) :
    ∃ indices ∈ list, rowMajor indices axes = position := by
  have hmem : position ∈ list.map fun indices => rowMajor indices axes := by
    rw [map_rowMajor_tuples h]
    exact List.mem_range.mpr hlt
  exact List.mem_map.mp hmem

/-- So every position is that of an entry, when the tuples are given a value each. -/
theorem exists_entry_of_lt {α : Type} {axes : List Nat} {list : List (List Nat)} {values : List α}
    {position : Nat} (h : (tuples axes : Outcome ε (List (List Nat))) = .ok list)
    (hlen : list.length = values.length) (hlt : position < axes.prod) :
    ∃ entry ∈ list.zip values, rowMajor entry.1 axes = position := by
  obtain ⟨indices, hindices, hposition⟩ := exists_tuple_of_lt h hlt
  rw [← List.map_fst_zip (Nat.le_of_eq hlen)] at hindices
  obtain ⟨entry, hentry, rfl⟩ := List.mem_map.mp hindices
  exact ⟨entry, hentry, hposition⟩

/-- The elements of a nested array come in the same order. -/
theorem at?_of_mem_zip {α : Type} {P : α → Prop} {axes : List Nat} {list : List (List Nat)}
    {nested : NdArray α} (h : (tuples axes : Outcome ε (List (List Nat))) = .ok list)
    (hfilled : nested.Filled P axes) :
    ∀ entry ∈ list.zip nested.leaves, nested.at? entry.1 = some (.element entry.2) := by
  intro entry hmem
  obtain ⟨k, hk⟩ := List.mem_iff_getElem?.mp hmem
  obtain ⟨hindices, hvalue⟩ := List.getElem?_zip_eq_some.mp hk
  have hwithin := (mem_tuples_iff h entry.1).mp (List.mem_of_getElem? hindices)
  obtain ⟨x, hat, hx⟩ := NdArray.at?_of_filled hfilled hwithin
  rw [rowMajor_of_getElem?_tuples h hindices, hvalue] at hx
  cases hx
  exact hat

/-- So the tuples in turn reach the elements from left to right. -/
theorem map_at?_tuples {α : Type} {P : α → Prop} {axes : List Nat} {list : List (List Nat)}
    {nested : NdArray α} (h : (tuples axes : Outcome ε (List (List Nat))) = .ok list)
    (hfilled : nested.Filled P axes) :
    list.map nested.at? = nested.leaves.map fun x => some (.element x) := by
  have hlen : list.length = nested.leaves.length := by
    rw [length_tuples h, NdArray.length_leaves hfilled]
  calc list.map nested.at?
      = ((list.zip nested.leaves).map Prod.fst).map nested.at? := by
        rw [List.map_fst_zip (Nat.le_of_eq hlen)]
    _ = ((list.zip nested.leaves).map Prod.snd).map fun x => some (.element x) := by
        rw [List.map_map, List.map_map]
        exact List.map_congr_left fun entry hmem => at?_of_mem_zip h hfilled entry hmem
    _ = nested.leaves.map fun x => some (.element x) := by
        rw [List.map_snd_zip (Nat.le_of_eq hlen.symm)]

end FieldStore.Grid
