/-
Folding and flattening undo one another.

`reshape` builds a nested array from the innermost axis outward, `flatten` takes one apart from the
outermost axis inward, so neither recursion follows the other.  What joins them is `leaves`: of all
arrays with the same axes each is known by its elements from left to right, `flatten` lists those,
and `reshape` keeps them.  So each of the two comes out as the same relation between a list and an
array, read in one direction or in the other.

All of that is for positive axes.  Along an axis of length zero no group is ever full, so nothing is
left to be grouped further out, and the axes before it come out empty as well.
-/
import FieldStore.Proofs.Grid.Nested

namespace FieldStore.NdArray

variable {α : Type} {dims : List Nat} {nested : NdArray α} {elements : List α}

/-- Whether a nested array has the given axes throughout. -/
def HasAxes (nested : NdArray α) (dims : List Nat) : Prop := Filled (fun _ => True) dims nested

/-! ### An array is known by its elements -/

theorem eq_of_leavesOf {axes : List Nat}
    (hknown : ∀ nested other : NdArray α, nested.HasAxes axes → other.HasAxes axes →
      nested.leaves = other.leaves → nested = other) :
    ∀ {items others : List (NdArray α)}, items.length = others.length →
      (∀ item ∈ items, item.HasAxes axes) → (∀ item ∈ others, item.HasAxes axes) →
        leavesOf items = leavesOf others → items = others := by
  intro items
  induction items with
  | nil =>
      intro others hlen _ _ _
      exact (List.eq_nil_of_length_eq_zero hlen.symm).symm
  | cons item items ih =>
      intro others hlen hitems hothers h
      rcases others with _ | ⟨other, others⟩
      · simp at hlen
      · have hitem := hitems item List.mem_cons_self
        have hother := hothers other List.mem_cons_self
        obtain ⟨hfirst, hrest⟩ := List.append_inj h
          (by rw [length_leaves hitem, length_leaves hother])
        rw [hknown item other hitem hother hfirst,
          ih (by simpa using hlen) (fun item hmem => hitems item (List.mem_cons_of_mem _ hmem))
            (fun item hmem => hothers item (List.mem_cons_of_mem _ hmem)) hrest]

/-- Two arrays with the same axes and the same elements from left to right are equal. -/
theorem eq_of_leaves :
    ∀ {axes : List Nat} (nested other : NdArray α), nested.HasAxes axes → other.HasAxes axes →
      nested.leaves = other.leaves → nested = other := by
  intro axes
  induction axes with
  | nil =>
      intro nested other h h' hleaves
      rcases nested with x | items
      · rcases other with y | others
        · simpa [leaves] using hleaves
        · exact h'.elim
      · exact h.elim
  | cons axis axes ih =>
      intro nested other h h' hleaves
      rcases nested with x | items
      · exact h.elim
      · rcases other with y | others
        · exact h'.elim
        · rw [eq_of_leavesOf ih (h.1.trans h'.1.symm) h.2 h'.2 hleaves]

/-! ### Both ways -/

/-- Flattening is this relation read from the array to the list. -/
theorem flatten_eq_ok_iff (hpos : ∀ d ∈ dims, 0 < d) (hbound : dims.prod < Size.bound)
    (hroom : referenceWidth * dims.prod ≤ Size.objectLimit) :
    nested.flatten dims = .ok elements ↔ nested.HasAxes dims ∧ nested.leaves = elements := by
  constructor
  · exact filled_of_flatten
  · intro h
    rw [flatten_eq_leaves h.1 hpos hbound hroom, h.2]

theorem flatten_of_not_hasAxes {count : Nat} (h : ¬ nested.HasAxes dims)
    (hproduct : (Size.product dims : Outcome FieldError Nat) = .ok count)
    (hroom : referenceWidth * count ≤ Size.objectLimit) :
    ∃ cause, nested.flatten dims = .error (.error (.mismatch cause)) := by
  rw [flatten_eq_flattenFrom nested hproduct hroom]
  rcases flattenFrom_cases dims nested 0 with herror | ⟨hfilled, -⟩
  · exact herror
  · exact absurd hfilled h

theorem reshape_of_length_ne (hpos : ∀ d ∈ dims, 0 < d) (hbound : dims.prod < Size.bound)
    (hlen : elements.length ≠ dims.prod) :
    reshape elements dims
      = .error (.error (.mismatch (.elementCount elements.length dims))) := by
  rw [reshape.eq_def, Size.product_of_lt hpos hbound]
  simp only [bind, Except.bind, if_pos hlen]
  rfl

/-- Rank 0 included: the one element is the array. -/
theorem exists_reshape (hpos : ∀ d ∈ dims, 0 < d) (hbound : dims.prod < Size.bound)
    (hlen : elements.length = dims.prod) (hfold : Foldable dims) :
    ∃ nested, reshape elements dims = .ok nested := by
  by_cases hne : dims = []
  · subst hne
    obtain ⟨x, rfl⟩ := List.length_eq_one_iff.mp hlen
    exact ⟨element x, rfl⟩
  · exact reshape_of_foldable elements hne hpos hbound hlen hfold

theorem reshape_of_not_foldable (hpos : ∀ d ∈ dims, 0 < d) (hbound : dims.prod < Size.bound)
    (hlen : elements.length = dims.prod) (hfold : ¬ Foldable dims) :
    reshape elements dims = .error (.fault .capacity) := by
  have hne : dims ≠ [] := by
    rintro rfl
    exact hfold (by simp [Foldable])
  rcases hreshape : reshape elements dims with failure | nested
  · rw [reshape_eq_error hne hpos hbound hlen hreshape]
  · exact absurd (foldable_of_reshape hreshape) hfold

/-- Folding is the same relation read from the list to the array. -/
theorem reshape_eq_ok_iff (hpos : ∀ d ∈ dims, 0 < d) (hbound : dims.prod < Size.bound)
    (hfold : Foldable dims) :
    reshape elements dims = .ok nested ↔ nested.HasAxes dims ∧ nested.leaves = elements := by
  constructor
  · intro h
    obtain ⟨hfilled, hleaves⟩ := filled_of_reshape hpos h
    exact ⟨hfilled.mono fun _ _ => trivial, hleaves⟩
  · intro h
    have hlen : elements.length = dims.prod := by rw [← h.2, length_leaves h.1]
    obtain ⟨other, hother⟩ := exists_reshape hpos hbound hlen hfold
    obtain ⟨hfilled, hleaves⟩ := filled_of_reshape hpos hother
    rw [hother, eq_of_leaves other nested (hfilled.mono fun _ _ => trivial) h.1
      (hleaves.trans h.2.symm)]

theorem Foldable.drop (h : Foldable dims) (count : Nat) : Foldable (dims.drop count) := by
  intro axis hmem
  rw [List.tail_drop, Nat.add_comm, ← List.drop_drop, List.drop_one] at hmem
  exact h axis (List.mem_of_mem_drop hmem)

/-- What indices into the first axes reach was folded from the block of elements at their position,
along the axes that are left. -/
theorem reshape_of_front {front : List Nat} (hpos : ∀ d ∈ dims, 0 < d)
    (hbound : dims.prod < Size.bound) (hreshape : reshape elements dims = .ok nested)
    (hfront : Shape.Within front (dims.take front.length)) :
    ∃ part, nested.at? front = some part ∧
      reshape (window (Shape.rowMajor front dims) (dims.drop front.length).prod elements)
        (dims.drop front.length) = .ok part := by
  have hfold := foldable_of_reshape hreshape
  obtain ⟨haxes, hleaves⟩ := (reshape_eq_ok_iff hpos hbound hfold).mp hreshape
  obtain ⟨part, hat, hpart, hblock⟩ := at?_of_front haxes hfront
  have hpos' : ∀ d ∈ dims.drop front.length, 0 < d := fun d hmem => hpos d (List.mem_of_mem_drop hmem)
  have hbound' : (dims.drop front.length).prod < Size.bound := by
    have := Shape.rowMajor_add_le hfront
    omega
  refine ⟨part, hat, ?_⟩
  rw [reshape_eq_ok_iff hpos' hbound' (hfold.drop _), ← hleaves]
  exact ⟨hpart, hblock⟩

/-- Whether some index reaches the end of its axis, or there are more indices than axes. -/
def Beyond (indices dims : List Nat) : Prop :=
  dims.length < indices.length ∨ ∃ axis index size : Nat,
    indices[axis]? = some index ∧ dims[axis]? = some size ∧ size ≤ index

theorem at?_of_beyond {indices : List Nat} (haxes : nested.HasAxes dims)
    (hbeyond : Beyond indices dims) : nested.at? indices = none := by
  refine at?_of_not_front haxes ?_
  intro hwithin
  rcases hbeyond with hlong | ⟨axis, index, size, hindex, hsize, hle⟩
  · have hlen := Shape.length_of_within hwithin
    rw [List.length_take] at hlen
    omega
  · obtain ⟨hlt, -⟩ := List.getElem?_eq_some_iff.mp hindex
    have hsize' : (dims.take indices.length)[axis]? = some size := by
      rw [List.getElem?_take, if_pos hlt, hsize]
    exact absurd (Shape.lt_of_within hwithin hindex hsize') (Nat.not_lt_of_le hle)

/-- **Folding and flattening are inverse to one another, and address in row-major order.**  Take
positive axes whose product fits.  A list is folded if and only if it has as many elements as that,
and an array is flattened if and only if it has those axes throughout; each is the inverse of the
other.  Both reserve room, `reshape` for one array along every axis but the first and `flatten` for
the list, and fail with `capacity` where there is none.  In an array that was folded, indices into
the first axes reach what the block of elements at their row-major position is folded into along the
axes that are left; a whole tuple thus reaches the element at its position, and a tuple that leaves
an axis or is too long reaches nothing. -/
theorem reshape_flatten_inverse (hpos : ∀ d ∈ dims, 0 < d) (hbound : dims.prod < Size.bound) :
    (∀ elements : List α,
      (elements.length ≠ dims.prod → reshape elements dims
        = .error (.error (.mismatch (.elementCount elements.length dims)))) ∧
      (elements.length = dims.prod →
        (Foldable dims → ∃ nested, reshape elements dims = .ok nested) ∧
        (¬ Foldable dims → reshape elements dims = .error (.fault .capacity)))) ∧
    (∀ nested : NdArray α,
      (referenceWidth * dims.prod ≤ Size.objectLimit →
        (nested.HasAxes dims → ∃ elements, nested.flatten dims = .ok elements) ∧
        (¬ nested.HasAxes dims →
          ∃ cause, nested.flatten dims = .error (.error (.mismatch cause)))) ∧
      (¬ referenceWidth * dims.prod ≤ Size.objectLimit →
        nested.flatten dims = .error (.fault .capacity))) ∧
    (Foldable dims → referenceWidth * dims.prod ≤ Size.objectLimit →
      ∀ (elements : List α) (nested : NdArray α),
        reshape elements dims = .ok nested ↔ nested.flatten dims = .ok elements) ∧
    ∀ (elements : List α) (nested : NdArray α), reshape elements dims = .ok nested →
      (∀ front, Shape.Within front (dims.take front.length) →
        ∃ part, nested.at? front = some part ∧
          reshape (window (Shape.rowMajor front dims) (dims.drop front.length).prod elements)
            (dims.drop front.length) = .ok part) ∧
      (∀ indices, Shape.Within indices dims →
        ∃ x, nested.at? indices = some (element x) ∧
          elements[Shape.rowMajor indices dims]? = some x ∧
          ∀ shape : Shape, shape.dims = dims →
            shape.flatIndex indices = .ok (Shape.rowMajor indices dims)) ∧
      ∀ indices, Beyond indices dims → nested.at? indices = none := by
  refine ⟨?_, ?_, ?_, ?_⟩
  · intro elements
    refine ⟨reshape_of_length_ne hpos hbound, fun hlen => ⟨exists_reshape hpos hbound hlen, ?_⟩⟩
    exact reshape_of_not_foldable hpos hbound hlen
  · intro nested
    refine ⟨fun hroom => ⟨?_, ?_⟩, flatten_of_no_room nested hpos hbound⟩
    · intro haxes
      exact ⟨_, flatten_eq_leaves haxes hpos hbound hroom⟩
    · intro haxes
      exact flatten_of_not_hasAxes haxes (Size.product_of_lt hpos hbound) hroom
  · intro hfold hroom elements nested
    rw [reshape_eq_ok_iff hpos hbound hfold, flatten_eq_ok_iff hpos hbound hroom]
  · intro elements nested hreshape
    obtain ⟨haxes, hleaves⟩ :=
      (reshape_eq_ok_iff hpos hbound (foldable_of_reshape hreshape)).mp hreshape
    refine ⟨fun front => reshape_of_front hpos hbound hreshape, ?_, fun _ => at?_of_beyond haxes⟩
    intro indices hwithin
    obtain ⟨x, hat, hx⟩ := at?_of_filled haxes hwithin
    refine ⟨x, hat, hleaves ▸ hx, ?_⟩
    rintro shape rfl
    exact Shape.flatIndex_of_within hwithin hbound

theorem reshape_flatten_inverse_rank_three :
    (∀ d ∈ [2, 1, 3], 0 < d) ∧ [2, 1, 3].prod < Size.bound ∧
      ∃ nested : NdArray Nat, reshape [10, 11, 12, 13, 14, 15] [2, 1, 3] = .ok nested ∧
        nested.flatten [2, 1, 3] = .ok [10, 11, 12, 13, 14, 15] ∧
        (∃ part, nested.at? [1] = some part ∧ reshape [13, 14, 15] [1, 3] = .ok part) ∧
        (∃ x, nested.at? [1, 0, 2] = some (element x) ∧
          [10, 11, 12, 13, 14, 15][5]? = some x) ∧
        nested.at? [0, 1] = none ∧ nested.at? [0, 0, 0, 0] = none := by
  have hpos : ∀ d ∈ [2, 1, 3], 0 < d := by decide
  have hbound : [2, 1, 3].prod < Size.bound := by decide
  have hfold : Foldable [2, 1, 3] := by simp [Foldable, Grid.itemWidth, Size.objectLimit]
  have hroom : referenceWidth * [2, 1, 3].prod ≤ Size.objectLimit := by decide
  obtain ⟨hlist, -, hinverse, haddress⟩ := reshape_flatten_inverse (α := Nat) hpos hbound
  obtain ⟨nested, hreshape⟩ := ((hlist [10, 11, 12, 13, 14, 15]).2 rfl).1 hfold
  obtain ⟨hfront, hwhole, hbeyond⟩ := haddress _ nested hreshape
  have hwithin : Shape.Within [1, 0, 2] [2, 1, 3] := by simp [Shape.Within]
  obtain ⟨x, hat, hx, -⟩ := hwhole [1, 0, 2] hwithin
  refine ⟨hpos, hbound, nested, hreshape, (hinverse hfold hroom _ _).mp hreshape,
    hfront [1] (by simp [Shape.Within]), ⟨x, hat, hx⟩, hbeyond _ (Or.inr ?_), hbeyond _ (Or.inl ?_)⟩
  · exact ⟨1, 1, 1, rfl, rfl, Nat.le_refl 1⟩
  · decide

/-! ### Axes of length zero -/

theorem foldlM_group_nil :
    ∀ {axes : List Nat}, (∀ axis ∈ axes, Grid.itemWidth * axis ≤ Size.objectLimit) →
      axes.foldlM group ([] : List (NdArray α)) = .ok [] := by
  intro axes
  induction axes with
  | nil => intro _; rfl
  | cons axis axes ih =>
      intro h
      rw [List.foldlM_cons, group_of_room [] (h axis List.mem_cons_self)]
      exact ih fun other hmem => h other (List.mem_cons_of_mem _ hmem)

/-- The array that has the given axes and no elements, provided that one of the axes is zero. -/
def hollow : List Nat → NdArray α
  | [] => array []
  | axis :: axes => array (List.replicate axis (hollow axes))

theorem hasAxes_hollow :
    ∀ {axes : List Nat}, 0 ∈ axes → (hollow axes : NdArray α).HasAxes axes := by
  intro axes
  induction axes with
  | nil => intro h; simp at h
  | cons axis axes ih =>
      intro h
      refine ⟨List.length_replicate, ?_⟩
      intro item hmem
      obtain ⟨hne, rfl⟩ := List.mem_replicate.mp hmem
      exact ih ((List.mem_cons.mp h).resolve_left hne.symm)

theorem prod_of_zero_axis (hzero : 0 ∈ dims) : dims.prod = 0 :=
  List.prod_eq_zero_iff_exists_zero_nat.mpr ⟨0, hzero, rfl⟩

theorem leaves_of_zero_axis (hzero : 0 ∈ dims) (haxes : nested.HasAxes dims) :
    nested.leaves = [] := by
  rw [← List.length_eq_zero_iff, length_leaves haxes, prod_of_zero_axis hzero]

/-- No array but that one has those axes. -/
theorem hasAxes_iff_eq_hollow (hzero : 0 ∈ dims) : nested.HasAxes dims ↔ nested = hollow dims := by
  have hhollow : (hollow dims : NdArray α).HasAxes dims := hasAxes_hollow hzero
  constructor
  · intro h
    refine eq_of_leaves nested _ h hhollow ?_
    rw [leaves_of_zero_axis hzero h, leaves_of_zero_axis hzero hhollow]
  · rintro rfl
    exact hhollow

/-- No elements are folded into an array of no items, whatever the axes are. -/
theorem reshape_nil (hzero : 0 ∈ dims) {count : Nat}
    (hproduct : (Size.product dims : Outcome FieldError Nat) = .ok count) :
    (Foldable dims → reshape ([] : List α) dims = .ok (array [])) ∧
      (¬ Foldable dims → reshape ([] : List α) dims = .error (.fault .capacity)) := by
  obtain ⟨rfl, -⟩ := Size.product_eq_ok hproduct
  rw [prod_of_zero_axis hzero] at hproduct
  rcases dims with _ | ⟨axis, inner⟩
  · simp at hzero
  · rw [reshape_cons hproduct]
    constructor
    · intro hfold
      have hinner : ∀ other ∈ inner.reverse, Grid.itemWidth * other ≤ Size.objectLimit :=
        fun other hmem => hfold other (List.mem_reverse.mp hmem)
      rw [List.map_nil, foldlM_group_nil hinner]
      rfl
    · intro hfold
      rcases hgroup : inner.reverse.foldlM group (([] : List α).map element) with failure | items
      · rw [foldlM_group_eq_error hgroup]
        rfl
      · exact absurd (fun other hmem => foldable_of_foldlM_group hgroup other
          (List.mem_reverse.mpr hmem)) hfold

theorem flatten_of_no_items {axis : Nat} {inner : List Nat} {count : Nat}
    (hproduct : (Size.product (axis :: inner) : Outcome FieldError Nat) = .ok count)
    (hroom : referenceWidth * count ≤ Size.objectLimit) :
    (array [] : NdArray α).flatten (axis :: inner)
      = if axis = 0 then .ok [] else .error (.error (.mismatch (.axisLength 0 0 axis))) := by
  rw [flatten_eq_flattenFrom _ hproduct hroom, flattenFrom]
  simp only [List.getElem?_cons_zero, List.length_nil, eq_comm (a := 0), flattenItems]

/-- **Folding no elements forgets the axes before a zero axis.**  For axes of which one is zero and
whose partial products fit there is exactly one array, `hollow dims`, and flattening it yields the
empty list.  Folding the empty list makes an array of no items instead (or fails with `capacity`
where an array along one of the axes has no room).  That is the right array, and one that `flatten`
takes back, if and only if the first axis is zero; otherwise `flatten` refuses it for its first
axis. -/
theorem reshape_nil_forgets_axes {axis : Nat} {inner : List Nat} {count : Nat}
    (hzero : 0 ∈ axis :: inner)
    (hproduct : (Size.product (axis :: inner) : Outcome FieldError Nat) = .ok count) :
    (∀ nested : NdArray α, nested.HasAxes (axis :: inner) ↔ nested = hollow (axis :: inner)) ∧
      (hollow (axis :: inner) : NdArray α).flatten (axis :: inner) = .ok [] ∧
      (Foldable (axis :: inner) →
        reshape ([] : List α) (axis :: inner) = .ok (array []) ∧
        ((array [] : NdArray α).HasAxes (axis :: inner) ↔ axis = 0) ∧
        (array [] : NdArray α).flatten (axis :: inner)
          = if axis = 0 then .ok [] else .error (.error (.mismatch (.axisLength 0 0 axis)))) ∧
      (¬ Foldable (axis :: inner) →
        reshape ([] : List α) (axis :: inner) = .error (.fault .capacity)) := by
  obtain ⟨rfl, -⟩ := Size.product_eq_ok hproduct
  have hroom : referenceWidth * (axis :: inner).prod ≤ Size.objectLimit := by
    rw [prod_of_zero_axis hzero]
    exact Nat.zero_le _
  have hhollow : (hollow (axis :: inner) : NdArray α).HasAxes (axis :: inner) :=
    hasAxes_hollow hzero
  obtain ⟨hfolded, hfull⟩ := reshape_nil (α := α) hzero hproduct
  refine ⟨fun _ => hasAxes_iff_eq_hollow hzero, ?_, fun hfold => ⟨hfolded hfold, ?_, ?_⟩, hfull⟩
  · rw [flatten_eq_flattenFrom _ hproduct hroom, flattenFrom_eq List.drop_zero hhollow,
      leaves_of_zero_axis hzero hhollow]
  · constructor
    · exact fun h => h.1.symm
    · rintro rfl
      exact ⟨rfl, by simp⟩
  · exact flatten_of_no_items hproduct hroom

theorem reshape_nil_forgets_axes_between :
    0 ∈ [2, 0, 3] ∧ (Size.product [2, 0, 3] : Outcome FieldError Nat) = .ok 0 ∧
      Foldable [2, 0, 3] ∧ (hollow [2, 0, 3] : NdArray Nat).HasAxes [2, 0, 3] ∧
      (hollow [2, 0, 3] : NdArray Nat).flatten [2, 0, 3] = .ok [] ∧
      reshape ([] : List Nat) [2, 0, 3] = .ok (array []) ∧
      ¬ (array [] : NdArray Nat).HasAxes [2, 0, 3] := by
  have hzero : 0 ∈ [2, 0, 3] := by decide
  have hproduct : (Size.product [2, 0, 3] : Outcome FieldError Nat) = .ok 0 := rfl
  have hfold : Foldable [2, 0, 3] := by simp [Foldable, Grid.itemWidth, Size.objectLimit]
  obtain ⟨hunique, hflatten, hfolded, -⟩ := reshape_nil_forgets_axes (α := Nat) hzero hproduct
  obtain ⟨hreshape, haxes, -⟩ := hfolded hfold
  refine ⟨hzero, hproduct, hfold, (hunique _).mpr rfl, hflatten, hreshape, ?_⟩
  rw [haxes]
  decide

/-- Two rows of no columns have no elements, but they are two. -/
theorem reshape_nil_of_two_empty_rows :
    0 ∈ [2, 0] ∧ (Size.product [2, 0] : Outcome FieldError Nat) = .ok 0 ∧
      ¬ ∃ nested : NdArray Value, reshape [] [2, 0] = .ok nested ∧ nested.HasAxes [2, 0] ∧
        nested.flatten [2, 0] = .ok [] := by
  refine ⟨by decide, rfl, ?_⟩
  rintro ⟨nested, hreshape, haxes, -⟩
  have hnested : array [] = nested := Except.ok.inj hreshape
  rw [← hnested] at haxes
  exact absurd haxes.1 (by decide)

end FieldStore.NdArray
