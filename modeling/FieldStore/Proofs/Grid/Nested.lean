/-
How many elements a nested array has, where they stand, and when there is one of given axes.

Flattening checks the length of every array against its axis, so it lists a nested array that has
the axes throughout as it stands and refuses every other one.  What some indices reach in such an
array are the elements from their row-major position on, as many as the axes below have.  Folding a
list of the right length fails only for want of room: the arrays of one level have to be held
while they are filled.
-/
import FieldStore.Grid.Nested
import FieldStore.Proofs.Grid.Chunks
import FieldStore.Proofs.Grid.Shape

namespace FieldStore.NdArray

variable {α : Type}

/-! ### Elements and their places -/

mutual
/-- The elements of a nested array from left to right. -/
def leaves : NdArray α → List α
  | element x => [x]
  | array items => leavesOf items

/-- The elements of all items, one item after the other. -/
def leavesOf : List (NdArray α) → List α
  | [] => []
  | item :: items => leaves item ++ leavesOf items
end

/-- Whether a nested array has the given axes throughout, and only elements of a kind. -/
def Filled (P : α → Prop) : List Nat → NdArray α → Prop
  | [], element x => P x
  | axis :: axes, array items => items.length = axis ∧ ∀ item ∈ items, Filled P axes item
  | _, _ => False

variable {P : α → Prop}

theorem Filled.mono {Q : α → Prop} (h : ∀ x, P x → Q x) :
    ∀ {axes : List Nat} {nested : NdArray α}, Filled P axes nested → Filled Q axes nested := by
  intro axes
  induction axes with
  | nil =>
      intro nested hfilled
      cases nested with
      | array items => exact hfilled.elim
      | element x => exact h x hfilled
  | cons axis axes ih =>
      intro nested hfilled
      cases nested with
      | element x => exact hfilled.elim
      | array items => exact ⟨hfilled.1, fun item hmem => ih (hfilled.2 item hmem)⟩

theorem leavesOf_eq_flatten (items : List (NdArray α)) :
    leavesOf items = (items.map leaves).flatten := by
  induction items with
  | nil => rfl
  | cons item items ih => rw [leavesOf, ih, List.map_cons, List.flatten_cons]

theorem flattenItems_eq {dims : List Nat} {depth : Nat} :
    ∀ {items : List (NdArray α)}, (∀ item ∈ items, flattenFrom dims depth item = .ok item.leaves) →
      flattenItems dims depth items = .ok (leavesOf items) := by
  intro items
  induction items with
  | nil => intro _; rfl
  | cons item items ih =>
      intro h
      rw [flattenItems, h item List.mem_cons_self,
        ih fun other hmem => h other (List.mem_cons_of_mem _ hmem)]
      rfl

theorem flattenFrom_eq {dims : List Nat} :
    ∀ {axes : List Nat} {depth : Nat} {nested : NdArray α}, dims.drop depth = axes →
      Filled P axes nested → flattenFrom dims depth nested = .ok nested.leaves := by
  intro axes
  induction axes with
  | nil =>
      intro depth nested hdrop h
      have hnone : dims[depth]? = none :=
        List.getElem?_eq_none_iff.mpr (List.drop_eq_nil_iff.mp hdrop)
      cases nested with
      | array items => exact h.elim
      | element x =>
          rw [flattenFrom, hnone]
          rfl
  | cons axis axes ih =>
      intro depth nested hdrop h
      have hsome : dims[depth]? = some axis := by
        rw [← Nat.add_zero depth, ← List.getElem?_drop, hdrop, List.getElem?_cons_zero]
      have hrest : dims.drop (depth + 1) = axes := by
        rw [← List.drop_drop, hdrop, List.drop_succ_cons, List.drop_zero]
      cases nested with
      | element x => exact h.elim
      | array items =>
          rw [flattenFrom]
          simp only [hsome, if_pos h.1]
          exact flattenItems_eq fun item hmem => ih hrest (h.2 item hmem)

mutual
/-- A nested array that does not have the axes from its level on is refused. -/
theorem flattenFrom_cases (dims : List Nat) : ∀ (nested : NdArray α) (depth : Nat),
    (∃ cause, flattenFrom dims depth nested = .error (.error (.mismatch cause))) ∨
      Filled (fun _ => True) (dims.drop depth) nested ∧
        flattenFrom dims depth nested = .ok nested.leaves
  | element x, depth => by
      by_cases hdepth : depth < dims.length
      · left
        exact ⟨.arrayExpected depth, by simp [flattenFrom, hdepth]⟩
      · right
        rw [List.drop_of_length_le (Nat.le_of_not_lt hdepth)]
        exact ⟨trivial, by simp [flattenFrom, hdepth, leaves]⟩
  | array items, depth => by
      by_cases hdepth : depth < dims.length
      · by_cases hlen : items.length = dims[depth]
        · rcases flattenItems_cases dims items (depth + 1) with ⟨cause, herror⟩ | ⟨hitems, hok⟩
          · left
            exact ⟨cause, by simp [flattenFrom, hdepth, hlen, herror]⟩
          · right
            rw [List.drop_eq_getElem_cons hdepth]
            exact ⟨⟨hlen, hitems⟩, by simp [flattenFrom, hdepth, hlen, hok, leaves]⟩
        · left
          exact ⟨.axisLength depth items.length dims[depth], by simp [flattenFrom, hdepth, hlen]⟩
      · left
        exact ⟨.nestedTooDeep dims.length, by simp [flattenFrom, hdepth]⟩

theorem flattenItems_cases (dims : List Nat) : ∀ (items : List (NdArray α)) (depth : Nat),
    (∃ cause, flattenItems dims depth items = .error (.error (.mismatch cause))) ∨
      (∀ item ∈ items, Filled (fun _ => True) (dims.drop depth) item) ∧
        flattenItems dims depth items = .ok (leavesOf items)
  | [], _ => by
      right
      exact ⟨by simp, rfl⟩
  | item :: items, depth => by
      rcases flattenFrom_cases dims item depth with ⟨cause, herror⟩ | ⟨hitem, hfirst⟩
      · left
        exact ⟨cause, by simp [flattenItems, herror, bind, Except.bind]⟩
      · rcases flattenItems_cases dims items depth with ⟨cause, herror⟩ | ⟨hitems, hrest⟩
        · left
          exact ⟨cause, by simp [flattenItems, hfirst, herror, bind, Except.bind]⟩
        · right
          refine ⟨by simpa using ⟨hitem, hitems⟩, ?_⟩
          simp [flattenItems, hfirst, hrest, leavesOf, bind, Except.bind, pure, Except.pure]
end

theorem flatten_eq_flattenFrom {dims : List Nat} {count : Nat} (nested : NdArray α)
    (hproduct : (Size.product dims : Outcome FieldError Nat) = .ok count)
    (hroom : referenceWidth * count ≤ Size.objectLimit) :
    nested.flatten dims = flattenFrom dims 0 nested := by
  rw [flatten, hproduct]
  simp only [bind, Except.bind, Size.reserve, if_pos hroom]

/-- **A nested array with the given axes is flattened to its elements from left to right.** -/
theorem flatten_eq_leaves {dims : List Nat} {nested : NdArray α} (h : Filled P dims nested)
    (hpos : ∀ d ∈ dims, 0 < d) (hbound : dims.prod < Size.bound)
    (hroom : referenceWidth * dims.prod ≤ Size.objectLimit) :
    nested.flatten dims = .ok nested.leaves := by
  rw [flatten_eq_flattenFrom nested (Size.product_of_lt hpos hbound) hroom]
  exact flattenFrom_eq List.drop_zero h

/-- A list of that many references has to be held, whatever the nested array is. -/
theorem flatten_of_no_room {dims : List Nat} (nested : NdArray α) (hpos : ∀ d ∈ dims, 0 < d)
    (hbound : dims.prod < Size.bound) (hroom : ¬ referenceWidth * dims.prod ≤ Size.objectLimit) :
    nested.flatten dims = .error (.fault .capacity) := by
  rw [flatten, Size.product_of_lt hpos hbound]
  simp only [bind, Except.bind, Size.reserve, if_neg hroom]

theorem length_leaves :
    ∀ {axes : List Nat} {nested : NdArray α}, Filled P axes nested →
      nested.leaves.length = axes.prod := by
  intro axes
  induction axes with
  | nil =>
      intro nested h
      cases nested with
      | array items => exact h.elim
      | element x => rfl
  | cons axis axes ih =>
      intro nested h
      cases nested with
      | element x => exact h.elim
      | array items =>
          have hrows : ∀ row ∈ items.map leaves, row.length = axes.prod := by
            intro row hmem
            obtain ⟨item, hitem, rfl⟩ := List.mem_map.mp hmem
            exact ih (h.2 item hitem)
          rw [leaves, leavesOf_eq_flatten, Grid.length_flatten hrows, List.length_map, h.1,
            List.prod_cons]

/-- A nested array that was flattened has the axes, and is listed as it stands. -/
theorem filled_of_flatten {nested : NdArray α} {dims : List Nat} {elements : List α}
    (h : nested.flatten dims = .ok elements) :
    Filled (fun _ => True) dims nested ∧ nested.leaves = elements := by
  rw [flatten, bind_eq_ok] at h
  obtain ⟨count, -, h⟩ := h
  rw [bind_eq_ok] at h
  obtain ⟨⟨⟩, -, h⟩ := h
  rcases flattenFrom_cases dims nested 0 with ⟨cause, herror⟩ | ⟨hfilled, hok⟩
  · rw [herror] at h
    simp at h
  · rw [hok] at h
    exact ⟨hfilled, Except.ok.inj h⟩

/-- So it has one element for every index tuple. -/
theorem length_of_flatten {nested : NdArray α} {dims : List Nat} {elements : List α}
    (h : nested.flatten dims = .ok elements) : elements.length = dims.prod := by
  obtain ⟨hfilled, rfl⟩ := filled_of_flatten h
  exact length_leaves hfilled

theorem of_mem_leaves :
    ∀ {axes : List Nat} {nested : NdArray α}, Filled P axes nested → ∀ x ∈ nested.leaves, P x := by
  intro axes
  induction axes with
  | nil =>
      intro nested h x hmem
      cases nested with
      | array items => exact h.elim
      | element y =>
          cases List.mem_singleton.mp hmem
          exact h
  | cons axis axes ih =>
      intro nested h x hmem
      cases nested with
      | element y => exact h.elim
      | array items =>
          rw [leaves, leavesOf_eq_flatten, List.mem_flatten] at hmem
          obtain ⟨row, hrow, hx⟩ := hmem
          obtain ⟨item, hitem, rfl⟩ := List.mem_map.mp hrow
          exact ih (h.2 item hitem) x hx

theorem at?_array (items : List (NdArray α)) (index : Nat) (indices : List Nat) :
    (array items).at? (index :: indices) = items[index]?.bind fun item => item.at? indices := rfl

/-- Indices that stay within the first axes reach an array with the axes that are left.  Its
elements stand together, from the row-major position of the indices on. -/
theorem at?_of_front :
    ∀ {indices axes : List Nat} {nested : NdArray α}, Filled P axes nested →
      Shape.Within indices (axes.take indices.length) →
        ∃ part, nested.at? indices = some part ∧ Filled P (axes.drop indices.length) part ∧
          part.leaves = window (Shape.rowMajor indices axes) (axes.drop indices.length).prod
            nested.leaves := by
  intro indices
  induction indices with
  | nil =>
      intro axes nested h _
      refine ⟨nested, by unfold at?; rfl, by simpa using h, ?_⟩
      rw [Shape.rowMajor_nil, List.length_nil, List.drop_zero, window_whole (length_leaves h)]
  | cons index indices ih =>
      intro axes nested h hwithin
      rcases axes with _ | ⟨axis, axes⟩
      · exact hwithin.elim
      rcases nested with x | items
      · exact h.elim
      obtain ⟨hlen, hitems⟩ := h
      obtain ⟨hlt, hrest⟩ := hwithin
      rw [← hlen] at hlt
      have hget : items[index]? = some items[index] := List.getElem?_eq_getElem hlt
      obtain ⟨part, hat, hpart, hleaves⟩ := ih (hitems _ (List.getElem_mem hlt)) hrest
      have hrows : ∀ row ∈ items.map leaves, row.length = axes.prod := by
        intro row hmem
        obtain ⟨item, hitem, rfl⟩ := List.mem_map.mp hmem
        exact length_leaves (hitems item hitem)
      have hrow : items[index].leaves
          = window (index * axes.prod) axes.prod (array items).leaves := by
        rw [leaves, leavesOf_eq_flatten, Grid.window_flatten hrows]
        simp [hget]
      refine ⟨part, ?_, hpart, ?_⟩
      · rw [at?_array, hget]
        exact hat
      · rw [hleaves, hrow, window_window (Shape.rowMajor_add_le hrest)]
        rfl

/-- The element reached by indices within the axes stands at their row-major position. -/
theorem at?_of_filled {axes indices : List Nat} {nested : NdArray α} (h : Filled P axes nested)
    (hwithin : Shape.Within indices axes) :
    ∃ x, nested.at? indices = some (element x) ∧
      nested.leaves[Shape.rowMajor indices axes]? = some x := by
  have hlen := Shape.length_of_within hwithin
  obtain ⟨part, hat, hpart, hleaves⟩ := at?_of_front h (by rwa [hlen, List.take_length])
  rw [hlen, List.drop_length] at hpart hleaves
  rcases part with x | items
  · refine ⟨x, hat, ?_⟩
    have hfirst := congrArg (·[0]?) hleaves
    simpa [leaves, getElem?_window, eq_comm] using hfirst
  · exact hpart.elim

/-- A tuple that leaves the axes, or is longer than they are, reaches nothing. -/
theorem at?_of_not_front :
    ∀ {indices axes : List Nat} {nested : NdArray α}, Filled P axes nested →
      ¬ Shape.Within indices (axes.take indices.length) → nested.at? indices = none := by
  intro indices
  induction indices with
  | nil =>
      intro axes nested _ hbeyond
      exact absurd trivial hbeyond
  | cons index indices ih =>
      intro axes nested h hbeyond
      rcases nested with x | items
      · rfl
      rcases axes with _ | ⟨axis, axes⟩
      · exact h.elim
      obtain ⟨hlen, hitems⟩ := h
      rw [at?_array]
      by_cases hlt : index < items.length
      · rw [List.getElem?_eq_getElem hlt]
        exact ih (hitems _ (List.getElem_mem hlt)) fun hrest => hbeyond ⟨hlen ▸ hlt, hrest⟩
      · simp [hlt]

/-- A tuple of the right length that leaves the axes reaches nothing. -/
theorem at?_of_not_within {axes indices : List Nat} {nested : NdArray α}
    (h : Filled P axes nested) (hlen : indices.length = axes.length)
    (hbeyond : ¬ Shape.Within indices axes) : nested.at? indices = none :=
  at?_of_not_front h (by rwa [hlen, List.take_length])

/-! ### Folding -/

theorem leavesOf_map_element (elements : List α) : leavesOf (elements.map element) = elements := by
  induction elements with
  | nil => rfl
  | cons x rest ih =>
      rw [List.map_cons, leavesOf, ih]
      rfl

/-- Grouping along one more axis keeps the elements and their order. -/
theorem filled_of_group {axes : List Nat} {axis m : Nat} {items items' : List (NdArray α)}
    (hpos : 0 < axis) (hlen : items.length = m * axis) (hfilled : ∀ item ∈ items, Filled P axes item)
    (h : group items axis = .ok items') :
    items'.length = m ∧ (∀ item ∈ items', Filled P (axis :: axes) item) ∧
      leavesOf items' = leavesOf items := by
  rw [group, bind_eq_ok] at h
  obtain ⟨rows, hrows, h⟩ := h
  rw [Grid.groupBy, bind_eq_ok] at hrows
  obtain ⟨⟨⟩, -, hrows⟩ := hrows
  obtain ⟨rows', hcount, hwidth, rfl⟩ := Grid.exists_rows axis m items hlen
  have hsame : rows = rows' := (Except.ok.inj hrows).symm.trans (Grid.groups_flatten hpos hwidth)
  cases h
  rw [hsame]
  refine ⟨by rw [List.length_map, hcount], ?_, ?_⟩
  · intro item hmem
    obtain ⟨row, hrow, rfl⟩ := List.mem_map.mp hmem
    exact ⟨hwidth row hrow, fun other hother =>
      hfilled other (List.mem_flatten.mpr ⟨row, hrow, hother⟩)⟩
  · rw [leavesOf_eq_flatten, leavesOf_eq_flatten, List.map_map, List.map_flatten,
      List.flatten_flatten, List.map_map]
    exact congrArg List.flatten (List.map_congr_left fun row _ => leavesOf_eq_flatten row)

/-- The innermost axis comes first, so the induction takes the axes off the other end. -/
theorem filled_of_foldlM_group :
    ∀ {axes base : List Nat} {m : Nat} {items items' : List (NdArray α)}, (∀ d ∈ axes, 0 < d) →
      items.length = m * axes.prod → (∀ item ∈ items, Filled P base item) →
        axes.reverse.foldlM group items = .ok items' →
          items'.length = m ∧ (∀ item ∈ items', Filled P (axes ++ base) item) ∧
            leavesOf items' = leavesOf items := by
  intro axes
  induction axes with
  | nil =>
      intro base m items items' _ hlen hfilled h
      cases h
      exact ⟨by simpa using hlen, hfilled, rfl⟩
  | cons axis axes ih =>
      intro base m items items' hpos hlen hfilled h
      rw [List.reverse_cons, List.foldlM_append, bind_eq_ok] at h
      obtain ⟨inner, hinner, h⟩ := h
      rw [List.foldlM_cons, bind_eq_ok] at h
      obtain ⟨outer, houter, h⟩ := h
      cases h
      rw [List.prod_cons, ← Nat.mul_assoc] at hlen
      obtain ⟨hcount, hrows, hleaves⟩ :=
        ih (fun d hmem => hpos d (List.mem_cons_of_mem _ hmem)) hlen hfilled hinner
      obtain ⟨hcount', hrows', hleaves'⟩ :=
        filled_of_group (hpos axis List.mem_cons_self) hcount hrows houter
      exact ⟨hcount', hrows', hleaves'.trans hleaves⟩

/-- **A list that was folded is found again, in the same order, in an array with the axes.** -/
theorem filled_of_reshape {elements : List α} {dims : List Nat} {nested : NdArray α}
    (hpos : ∀ d ∈ dims, 0 < d) (h : reshape elements dims = .ok nested) :
    Filled (· ∈ elements) dims nested ∧ nested.leaves = elements := by
  rw [reshape.eq_def, bind_eq_ok] at h
  obtain ⟨expected, hexpected, h⟩ := h
  obtain ⟨rfl, -⟩ := Size.product_eq_ok hexpected
  by_cases hne : elements.length ≠ dims.prod
  · rw [if_pos hne] at h
    cases h
  · rw [if_neg hne] at h
    have hlen := Decidable.not_not.mp hne
    cases dims with
    | nil =>
        obtain ⟨x, rfl⟩ := List.length_eq_one_iff.mp hlen
        cases h
        exact ⟨List.mem_singleton_self x, rfl⟩
    | cons axis inner =>
        obtain ⟨items, hitems, h⟩ := bind_eq_ok.mp h
        cases h
        have helements : ∀ item ∈ elements.map element, Filled (· ∈ elements) [] item := by
          intro item hmem
          obtain ⟨x, hx, rfl⟩ := List.mem_map.mp hmem
          exact hx
        obtain ⟨hcount, hrows, hleaves⟩ := filled_of_foldlM_group (m := axis)
          (fun d hmem => hpos d (List.mem_cons_of_mem _ hmem))
          (by rw [List.length_map, hlen, List.prod_cons]) helements hitems
        rw [List.append_nil] at hrows
        exact ⟨⟨hcount, hrows⟩, hleaves.trans (leavesOf_map_element elements)⟩

/-- Whether an array can be as long as every axis but the first, along which nothing is grouped. -/
def Foldable (dims : List Nat) : Prop :=
  ∀ axis ∈ dims.tail, Grid.itemWidth * axis ≤ Size.objectLimit

theorem group_of_room {axis : Nat} (items : List (NdArray α))
    (h : Grid.itemWidth * axis ≤ Size.objectLimit) :
    group items axis = .ok ((Grid.groups axis items).map array) := by
  rw [group, bind_eq_ok]
  refine ⟨_, ?_, rfl⟩
  rw [Grid.groupBy, bind_eq_ok]
  exact ⟨(), Size.reserve_eq_ok_iff.mpr h, rfl⟩

theorem foldlM_group_of_foldable :
    ∀ (axes : List Nat) (items : List (NdArray α)),
      (∀ axis ∈ axes, Grid.itemWidth * axis ≤ Size.objectLimit) →
        ∃ items', axes.foldlM group items = .ok items' := by
  intro axes
  induction axes with
  | nil => intro items _; exact ⟨items, rfl⟩
  | cons axis axes ih =>
      intro items h
      obtain ⟨items', hitems⟩ := ih ((Grid.groups axis items).map array)
        fun other hmem => h other (List.mem_cons_of_mem _ hmem)
      refine ⟨items', ?_⟩
      rw [List.foldlM_cons, group_of_room items (h axis List.mem_cons_self)]
      exact hitems

theorem foldable_of_foldlM_group :
    ∀ {axes : List Nat} {items items' : List (NdArray α)}, axes.foldlM group items = .ok items' →
      ∀ axis ∈ axes, Grid.itemWidth * axis ≤ Size.objectLimit := by
  intro axes
  induction axes with
  | nil => intro _ _ _ axis hmem; cases hmem
  | cons first axes ih =>
      intro items items' h axis hmem
      rw [List.foldlM_cons, bind_eq_ok] at h
      obtain ⟨grouped, hgroup, h⟩ := h
      rcases List.mem_cons.mp hmem with rfl | hmem
      · rw [group, bind_eq_ok] at hgroup
        obtain ⟨_, hgroups, -⟩ := hgroup
        rw [Grid.groupBy, bind_eq_ok] at hgroups
        obtain ⟨⟨⟩, hreserve, -⟩ := hgroups
        exact Size.reserve_eq_ok_iff.mp hreserve
      · exact ih h axis hmem

/-- Folding fails for want of room and for no other reason. -/
theorem foldlM_group_eq_error {failure : Failure FieldError} :
    ∀ {axes : List Nat} {items : List (NdArray α)},
      axes.foldlM group items = .error failure → failure = .fault .capacity := by
  intro axes
  induction axes with
  | nil => intro items h; cases h
  | cons axis axes ih =>
      intro items h
      rw [List.foldlM_cons, bind_eq_error] at h
      rcases h with h | ⟨grouped, -, h⟩
      · rw [group, bind_eq_error] at h
        rcases h with h | ⟨_, -, h⟩
        · rw [Grid.groupBy, bind_eq_error] at h
          rcases h with h | ⟨_, -, h⟩
          · exact Size.reserve_eq_error h
          · cases h
        · cases h
      · exact ih h

/-- As many elements as the axes have index tuples are grouped along every axis but the first. -/
theorem reshape_cons {elements : List α} {axis : Nat} {inner : List Nat}
    (hproduct : (Size.product (axis :: inner) : Outcome FieldError Nat) = .ok elements.length) :
    reshape elements (axis :: inner)
      = inner.reverse.foldlM group (elements.map element) >>= fun items => .ok (array items) := by
  simp only [reshape, hproduct, bind, Except.bind, ne_eq, not_true_eq_false, if_false]
  rfl

/-- A list of the right length can only be too long for one of its axes. -/
theorem reshape_eq_error {elements : List α} {dims : List Nat} {failure : Failure FieldError}
    (hne : dims ≠ []) (hpos : ∀ d ∈ dims, 0 < d) (hbound : dims.prod < Size.bound)
    (hlen : elements.length = dims.prod) (h : reshape elements dims = .error failure) :
    failure = .fault .capacity := by
  rcases dims with _ | ⟨axis, inner⟩
  · exact absurd rfl hne
  · rw [reshape_cons (hlen ▸ Size.product_of_lt hpos hbound)] at h
    rcases bind_eq_error.mp h with h | ⟨items, -, h⟩
    · exact foldlM_group_eq_error h
    · simp at h

theorem foldable_of_reshape {elements : List α} {dims : List Nat} {nested : NdArray α}
    (h : reshape elements dims = .ok nested) : Foldable dims := by
  intro axis hmem
  rw [reshape.eq_def, bind_eq_ok] at h
  obtain ⟨expected, -, h⟩ := h
  by_cases hne : elements.length ≠ expected
  · rw [if_pos hne] at h
    cases h
  · rw [if_neg hne] at h
    cases dims with
    | nil => cases hmem
    | cons first inner =>
        obtain ⟨items, hitems, -⟩ := bind_eq_ok.mp h
        exact foldable_of_foldlM_group hitems axis (List.mem_reverse.mpr hmem)

/-- As many elements as the grid has are folded into an array of its axes. -/
theorem reshape_of_foldable (elements : List α) {dims : List Nat} (hne : dims ≠ [])
    (hpos : ∀ d ∈ dims, 0 < d) (hbound : dims.prod < Size.bound)
    (hlen : elements.length = dims.prod) (hfold : Foldable dims) :
    ∃ nested, reshape elements dims = .ok nested := by
  rcases dims with _ | ⟨axis, inner⟩
  · exact absurd rfl hne
  · obtain ⟨items, hitems⟩ := foldlM_group_of_foldable inner.reverse (elements.map element)
      fun other hmem => hfold other (List.mem_reverse.mp hmem)
    refine ⟨array items, ?_⟩
    rw [reshape_cons (hlen ▸ Size.product_of_lt hpos hbound), hitems]
    rfl

end FieldStore.NdArray
