/-
What cutting a list into runs yields.

`collect` has the group under way in hand, so the induction is on the items that still
go into it; once it is full the next group starts from nothing.  For a list whose length
is a multiple of the run length nothing is left over, and the runs are exactly the ones
whose concatenation is the list.
-/
import FieldStore.Grid.Group
import FieldStore.Proofs.Machine.Window

namespace FieldStore.Grid

variable {α : Type}

/-- The items that fill the group under way are taken up, and the next group is begun. -/
theorem collect_append {n : Nat} (block rest : List α) :
    ∀ (room : Nat) (current : List α), 0 < room → block.length = room →
      collect n room current (block ++ rest) =
        ((current.reverse ++ block) :: (collect n n [] rest).1, (collect n n [] rest).2) := by
  induction block with
  | nil =>
      intro room current hroom hlen
      simp at hlen
      omega
  | cons x block ih =>
      intro room current hroom hlen
      simp only [List.length_cons] at hlen
      rw [List.cons_append, collect]
      by_cases h1 : room = 1
      · have hnil : block = [] := List.eq_nil_of_length_eq_zero (by omega)
        rw [if_pos h1, hnil]
        simp
      · rw [if_neg h1, ih (room - 1) (x :: current) (by omega) (by omega)]
        simp

theorem length_flatten {n : Nat} :
    ∀ {rows : List (List α)}, (∀ row ∈ rows, row.length = n) →
      rows.flatten.length = rows.length * n := by
  intro rows h
  induction rows with
  | nil => simp
  | cons row rows ih =>
      rw [List.flatten_cons, List.length_append, h row List.mem_cons_self,
        ih fun row' hmem => h row' (List.mem_cons_of_mem _ hmem), List.length_cons,
        Nat.succ_mul, Nat.add_comm]

/-- An item of a concatenation of rows of equal length. -/
theorem getElem?_flatten {n : Nat} :
    ∀ {rows : List (List α)} {row : List α} {i k : Nat}, (∀ row ∈ rows, row.length = n) →
      rows[i]? = some row → k < n → rows.flatten[i * n + k]? = row[k]? := by
  intro rows
  induction rows with
  | nil => intro row i k _ hrow _; cases hrow
  | cons first rows ih =>
      intro row i k h hrow hk
      have hfirst := h first List.mem_cons_self
      rw [List.flatten_cons]
      cases i with
      | zero =>
          cases hrow
          rw [Nat.zero_mul, Nat.zero_add, List.getElem?_append_left (by omega)]
      | succ i =>
          rw [List.getElem?_cons_succ] at hrow
          rw [Nat.succ_mul, List.getElem?_append_right (by omega),
            show i * n + n + k - first.length = i * n + k by omega]
          exact ih (fun other hmem => h other (List.mem_cons_of_mem _ hmem)) hrow hk

/-- Too few items to fill the group under way are left over. -/
theorem collect_of_lt {n : Nat} (rest : List α) :
    ∀ (room : Nat) (current : List α), rest.length < room →
      collect n room current rest = ([], current.reverse ++ rest) := by
  induction rest with
  | nil =>
      intro room current _
      rw [collect, List.append_nil]
  | cons x rest ih =>
      intro room current hlen
      rw [List.length_cons] at hlen
      rw [collect, if_neg (by omega), ih (room - 1) (x :: current) (by omega)]
      simp

/-- Rows of length `n` and fewer than `n` further items are found again in their concatenation. -/
theorem collect_flatten_append {n : Nat} {rest : List α} (hrest : rest.length < n) :
    ∀ {rows : List (List α)}, (∀ row ∈ rows, row.length = n) →
      collect n n [] (rows.flatten ++ rest) = (rows, rest) := by
  intro rows
  induction rows with
  | nil => intro _; exact collect_of_lt rest n [] hrest
  | cons row rows ih =>
      intro hrows
      rw [List.flatten_cons, List.append_assoc,
        collect_append row _ n [] (by omega) (hrows row List.mem_cons_self),
        ih fun row' h => hrows row' (List.mem_cons_of_mem _ h)]
      simp

/-- Nothing is left over of a concatenation of rows of length `n`. -/
theorem collect_flatten {n : Nat} (hn : 0 < n) {rows : List (List α)}
    (hrows : ∀ row ∈ rows, row.length = n) : collect n n [] rows.flatten = (rows, []) := by
  rw [← List.append_nil rows.flatten]
  exact collect_flatten_append hn hrows

/-- Rows of equal length are found again in their concatenation. -/
theorem chunks_flatten {n : Nat} (hn : 0 < n) {rows : List (List α)}
    (hrows : ∀ row ∈ rows, row.length = n) : chunks n rows.flatten = rows := by
  simp [chunks, collect_flatten hn hrows]

theorem groups_flatten {n : Nat} (hn : 0 < n) {rows : List (List α)}
    (hrows : ∀ row ∈ rows, row.length = n) : groups n rows.flatten = rows := by
  simp [groups, collect_flatten hn hrows]

/-- A list whose length is a multiple of `n` is a concatenation of rows of length `n`. -/
theorem exists_rows (n : Nat) :
    ∀ (m : Nat) (items : List α), items.length = m * n →
      ∃ rows : List (List α), rows.length = m ∧ (∀ row ∈ rows, row.length = n) ∧
        rows.flatten = items := by
  intro m
  induction m with
  | zero =>
      intro items h
      exact ⟨[], rfl, by simp, by simpa [eq_comm] using h⟩
  | succ m ih =>
      intro items h
      rw [Nat.succ_mul] at h
      obtain ⟨rows, hlen, hrows, hflat⟩ := ih (items.drop n) (by simp; omega)
      refine ⟨items.take n :: rows, by simp [hlen], ?_, by simp [hflat]⟩
      intro row hrow
      rcases List.mem_cons.mp hrow with rfl | hrow
      · simp
        omega
      · exact hrows row hrow

/-- The runs of a list without a partial one. -/
theorem chunks_spec {n m : Nat} (hn : 0 < n) {items : List α} (h : items.length = m * n) :
    (chunks n items).length = m ∧ (∀ row ∈ chunks n items, row.length = n) ∧
      (chunks n items).flatten = items := by
  obtain ⟨rows, hlen, hrows, rfl⟩ := exists_rows n m items h
  rw [chunks_flatten hn hrows]
  exact ⟨hlen, hrows, rfl⟩

/-- A row of a concatenation of rows of equal length is a window of it. -/
theorem window_flatten {n i : Nat} {rows : List (List α)} {row : List α}
    (h : ∀ other ∈ rows, other.length = n) (hrow : rows[i]? = some row) :
    window (i * n) n rows.flatten = row := by
  have hlen := h row (List.mem_of_getElem? hrow)
  apply List.ext_getElem?
  intro k
  rw [getElem?_window]
  by_cases hk : k < n
  · rw [if_pos hk, getElem?_flatten h hrow hk]
  · rw [if_neg hk, List.getElem?_eq_none (by omega)]

/-- The runs of a list without a partial one are its windows at multiples of `n`. -/
theorem chunks_eq_windows {n m : Nat} (hn : 0 < n) {items : List α} (h : items.length = m * n) :
    chunks n items = (List.range m).map fun i => window (i * n) n items := by
  obtain ⟨rows, hlen, hrows, rfl⟩ := exists_rows n m items h
  rw [chunks_flatten hn hrows]
  apply List.ext_getElem?
  intro i
  by_cases hi : i < m
  · have hrow : rows[i]? = some rows[i] := List.getElem?_eq_getElem (by omega)
    simp [hi, hrow, window_flatten hrows hrow]
  · simp [hi, hlen]

/-- Putting in one block of a row of blocks replaces that block. -/
theorem overwrite_block {n i : Nat} {front back block : List α} {blocks : List (List α)}
    (hblocks : ∀ other ∈ blocks, other.length = n) (hblock : block.length = n)
    (hi : i < blocks.length) :
    overwrite (front.length + i * n) block (front ++ blocks.flatten ++ back)
      = front ++ (blocks.set i block).flatten ++ back := by
  have hold : blocks[i].length = block.length := by
    rw [hblocks _ (List.getElem_mem hi), hblock]
  have hbefore : (front ++ (blocks.take i).flatten).length = front.length + i * n := by
    rw [List.length_append,
      length_flatten fun other hmem => hblocks other (List.mem_of_mem_take hmem),
      List.length_take, Nat.min_eq_left (Nat.le_of_lt hi)]
  have hsplit : front ++ blocks.flatten ++ back
      = (front ++ (blocks.take i).flatten) ++ blocks[i]
        ++ ((blocks.drop (i + 1)).flatten ++ back) := by
    have hcut : blocks = blocks.take i ++ blocks[i] :: blocks.drop (i + 1) := by
      rw [← List.drop_eq_getElem_cons hi, List.take_append_drop]
    calc front ++ blocks.flatten ++ back
        = front ++ (blocks.take i ++ blocks[i] :: blocks.drop (i + 1)).flatten ++ back := by
          rw [← hcut]
      _ = _ := by simp only [List.flatten_append, List.flatten_cons, List.append_assoc]
  rw [hsplit, overwrite_append hbefore hold, List.set_eq_take_append_cons_drop, if_pos hi]
  simp

end FieldStore.Grid
