/-
Grouping is division of a list.

As a number is a multiple of `n` and a remainder below `n`, a list is the concatenation of rows of
length `n` and fewer than `n` further items, and in one way only.  The rows are the groups.  So a
list that has been taken apart so is all that is needed to know its groups, and grouping the groups
by `b` takes the list apart into rows of `n * b` items: what is left over of the groups, together
with what is left over of the items, is shorter than that.
-/
import FieldStore.Error
import FieldStore.Proofs.Grid.Chunks
import FieldStore.Proofs.Machine.Size

namespace FieldStore.Grid

variable {α ε : Type} {a b n : Nat} {items : List α}

/-! ### One grouping -/

/-- A list taken apart into rows of length `n` and a remainder has these rows for groups. -/
theorem groups_flatten_append {rows : List (List α)} {rest : List α} (hrest : rest.length < n)
    (hrows : ∀ row ∈ rows, row.length = n) : groups n (rows.flatten ++ rest) = rows := by
  rw [groups, collect_flatten_append hrest hrows]

/-- Every list is its groups and a remainder. -/
theorem groups_division (hn : 0 < n) (items : List α) :
    (groups n items).length = items.length / n ∧ (∀ row ∈ groups n items, row.length = n) ∧
      ∃ rest, rest.length < n ∧ (groups n items).flatten ++ rest = items := by
  have hlen : (items.take (items.length / n * n)).length = items.length / n * n := by
    rw [List.length_take]
    exact Nat.min_eq_left (Nat.div_mul_le_self _ _)
  obtain ⟨rows, hcount, hrows, hflat⟩ := exists_rows n (items.length / n) _ hlen
  have hrest : (items.drop (items.length / n * n)).length < n := by
    have hmod := Nat.mod_lt items.length hn
    have hdiv := Nat.div_add_mod' items.length n
    rw [List.length_drop]
    omega
  have hitems : rows.flatten ++ items.drop (items.length / n * n) = items := by
    rw [hflat, List.take_append_drop]
  have hgroups : groups n items = rows := by
    rw [← hitems]
    exact groups_flatten_append hrest hrows
  rw [hgroups]
  exact ⟨hcount, hrows, _, hrest, hitems⟩

theorem flatten_groups (hn : 0 < n) (items : List α) :
    (groups n items).flatten = items.take (n * (items.length / n)) := by
  obtain ⟨hcount, hrows, rest, -, hitems⟩ := groups_division hn items
  have hlen : (groups n items).flatten.length = n * (items.length / n) := by
    rw [length_flatten hrows, hcount, Nat.mul_comm]
  calc (groups n items).flatten
      = ((groups n items).flatten ++ rest).take (groups n items).flatten.length :=
        List.take_left.symm
    _ = items.take (n * (items.length / n)) := by rw [hitems, hlen]

/-! ### Two groupings -/

/-- Grouping twice is grouping by the product. -/
theorem groups_groups (ha : 0 < a) (hb : 0 < b) (items : List α) :
    (groups b (groups a items)).map List.flatten = groups (a * b) items := by
  obtain ⟨-, hrows, rest, hrest, hitems⟩ := groups_division ha items
  obtain ⟨-, hblocks, spare, hspare, hgroups⟩ := groups_division hb (groups a items)
  have hmem : ∀ row, row ∈ spare ∨ row ∈ (groups b (groups a items)).flatten → row.length = a := by
    intro row hrow
    refine hrows row ?_
    rw [← hgroups, List.mem_append]
    exact hrow.symm
  -- The groups that are left over, and the items that were left over before.
  have hshort : (spare.flatten ++ rest).length < a * b := by
    have hstep : spare.length * a + a ≤ a * b := by
      rw [← Nat.succ_mul, Nat.mul_comm]
      exact Nat.mul_le_mul_left a hspare
    rw [List.length_append, length_flatten fun row hrow => hmem row (Or.inl hrow)]
    omega
  have hwide : ∀ row ∈ (groups b (groups a items)).map List.flatten, row.length = a * b := by
    intro row hrow
    obtain ⟨block, hblock, rfl⟩ := List.mem_map.mp hrow
    rw [length_flatten fun row' hrow' => hmem row' (Or.inr (List.mem_flatten_of_mem hblock hrow')),
      hblocks block hblock, Nat.mul_comm]
  have hsame : ((groups b (groups a items)).map List.flatten).flatten ++ (spare.flatten ++ rest)
      = items := by
    rw [← List.flatten_flatten, ← List.append_assoc, ← List.flatten_append, hgroups, hitems]
  rw [← groups_flatten_append hshort hwide, hsame]

/-! ### Within the room there is -/

/-- Whether there is room for the list of the groups of `n` of `count` items, and for a group. -/
def HasRoom (width n count : Nat) : Prop :=
  listWidth * (count / n) ≤ Size.objectLimit ∧ width * n ≤ Size.objectLimit

theorem groupItems_eq_ok_iff {width : Nat} {rows : List (List α)} :
    (groupItems width n items : Outcome ε (List (List α))) = .ok rows
      ↔ HasRoom width n items.length ∧ rows = groups n items := by
  unfold groupItems
  rw [bind_eq_ok]
  constructor
  · rintro ⟨⟨⟩, hlist, hrun⟩
    obtain ⟨⟨⟩, hgroup, hrows⟩ := bind_eq_ok.mp hrun
    cases hrows
    exact ⟨⟨Size.reserve_eq_ok_iff.mp hlist, Size.reserve_eq_ok_iff.mp hgroup⟩, rfl⟩
  · rintro ⟨⟨hlist, hgroup⟩, rfl⟩
    refine ⟨(), Size.reserve_eq_ok_iff.mpr hlist, ?_⟩
    exact bind_eq_ok.mpr ⟨(), Size.reserve_eq_ok_iff.mpr hgroup, rfl⟩

theorem groupItems_of_room {width : Nat} (h : HasRoom width n items.length) :
    (groupItems width n items : Outcome ε (List (List α))) = .ok (groups n items) :=
  groupItems_eq_ok_iff.mpr ⟨h, rfl⟩

theorem groupItems_eq_error {width : Nat} {failure : Failure ε}
    (h : groupItems width n items = .error failure) : failure = .fault .capacity := by
  unfold groupItems at h
  rcases bind_eq_error.mp h with hlist | ⟨_, -, hrun⟩
  · exact Size.reserve_eq_error hlist
  · rcases bind_eq_error.mp hrun with hgroup | ⟨_, -, hrows⟩
    · exact Size.reserve_eq_error hgroup
    · cases hrows

/-- Without that room a grouping fails, also if no group would come of it. -/
theorem groupItems_of_no_room {width : Nat} (h : ¬ HasRoom width n items.length) :
    (groupItems width n items : Outcome ε (List (List α))) = .error (.fault .capacity) := by
  cases hrun : (groupItems width n items : Outcome ε (List (List α))) with
  | error failure => rw [groupItems_eq_error hrun]
  | ok rows => exact absurd (groupItems_eq_ok_iff.mp hrun).1 h

/-- Where the items are as wide as those of a nested array and can be held themselves, there is
room for the list of their groups. -/
theorem groupBy_eq_groupItems (h : itemWidth * items.length ≤ Size.objectLimit) :
    (groupBy n items : Outcome ε (List (List α))) = groupItems itemWidth n items := by
  have hroom : listWidth * (items.length / n) ≤ Size.objectLimit :=
    calc listWidth * (items.length / n)
        ≤ itemWidth * items.length := Nat.mul_le_mul (by decide) (Nat.div_le_self _ _)
      _ ≤ Size.objectLimit := h
  have hlist : (Size.reserve listWidth (items.length / n) : Outcome ε Unit) = .ok () :=
    Size.reserve_eq_ok_iff.mpr hroom
  rw [groupItems, hlist]
  rfl

/-- **Grouping composes.**  Grouping by `a` yields as many groups as `a` goes into the length of the
list, each of `a` items and all of them together the items from the front; the remainder is dropped.
Grouping the groups by `b` and putting each group of groups together is grouping by `a * b`.  All of
that is so where there is room for the list of the groups and for a group, of items of any width;
the groups, which are grouped the second time, are list handles. -/
theorem grouping_composes (ha : 0 < a) (hb : 0 < b) (width : Nat) (items : List α) :
    (HasRoom width a items.length →
      ∃ rows, (groupItems width a items : Outcome ε (List (List α))) = .ok rows ∧
        rows.length = items.length / a ∧ (∀ row ∈ rows, row.length = a) ∧
        rows.flatten = items.take (a * (items.length / a))) ∧
    (HasRoom width a items.length → HasRoom listWidth b (items.length / a) →
      HasRoom width (a * b) items.length →
        (do let rows ← groupItems width a items
            let blocks ← groupItems listWidth b rows
            return blocks.map List.flatten : Outcome ε (List (List α)))
          = groupItems width (a * b) items) ∧
    (itemWidth * items.length ≤ Size.objectLimit →
      (groupBy a items : Outcome ε (List (List α))) = groupItems itemWidth a items) := by
  obtain ⟨hcount, hrows, -⟩ := groups_division ha items
  refine ⟨?_, ?_, groupBy_eq_groupItems⟩
  · intro hroom
    exact ⟨_, groupItems_of_room hroom, hcount, hrows, flatten_groups ha items⟩
  · intro hroom hrooms hproduct
    rw [groupItems_of_room hroom, groupItems_of_room hproduct, ← groups_groups ha hb]
    have hsecond : (groupItems listWidth b (groups a items) : Outcome ε _)
        = .ok (groups b (groups a items)) := groupItems_of_room (by rwa [hcount])
    simp only [bind, Except.bind, hsecond]
    rfl

/-- Eleven items are five pairs and one item over, and the pairs are one triple and two over. -/
theorem grouping_composes_with_rest :
    0 < 2 ∧ 0 < 3 ∧ HasRoom itemWidth 2 11 ∧ HasRoom listWidth 3 5 ∧ HasRoom itemWidth 6 11 ∧
      (∃ rows, (groupBy 2 (List.range 11) : Outcome FieldError (List (List Nat))) = .ok rows ∧
        rows.length = 5 ∧ rows.flatten = List.range 10) ∧
      (do let rows ← groupItems itemWidth 2 (List.range 11)
          let blocks ← groupItems listWidth 3 rows
          return blocks.map List.flatten : Outcome FieldError (List (List Nat)))
        = .ok [[0, 1, 2, 3, 4, 5]] := by
  have hroom : HasRoom itemWidth 2 11 := ⟨by decide, by decide⟩
  have hrooms : HasRoom listWidth 3 5 := ⟨by decide, by decide⟩
  have hproduct : HasRoom itemWidth 6 11 := ⟨by decide, by decide⟩
  obtain ⟨hone, htwo, hplain⟩ := grouping_composes (ε := FieldError) (a := 2) (b := 3) (by decide)
    (by decide) itemWidth (List.range 11)
  obtain ⟨rows, hrows, hcount, -, hflat⟩ := hone hroom
  refine ⟨by decide, by decide, hroom, hrooms, hproduct, ⟨rows, ?_, hcount, hflat⟩, ?_⟩
  · rw [hplain (by decide), hrows]
  · rw [htwo hroom hrooms hproduct]
    rfl

/-- A group may have no room however few items there are. -/
theorem groupBy_of_unholdable :
    0 < 0x4000000000000000 ∧
      ¬ ∃ rows,
        (groupBy 0x4000000000000000 [] : Outcome FieldError (List (List Value))) = .ok rows ∧
          rows.length = ([] : List Value).length / 0x4000000000000000 := by
  refine ⟨by decide, ?_⟩
  rintro ⟨rows, hrows, -⟩
  have hroom : ¬ HasRoom itemWidth 0x4000000000000000 ([] : List Value).length :=
    fun h => absurd h.2 (by decide)
  rw [groupBy_eq_groupItems (by decide), groupItems_of_no_room hroom] at hrows
  cases hrows

end FieldStore.Grid
