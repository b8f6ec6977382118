/-
The position of an index tuple.

A tuple that denotes an element has one index per axis, each below the end of its axis.  Its
position is then below the number of elements, by induction on the axes: every axis but the
first contributes less than one step of the first.
-/
import FieldStore.Grid.Shape
import FieldStore.Proofs.Machine.Size

namespace FieldStore.Shape

variable {ε : Type}

theorem dims_of_ofDims {dims : List Nat} {shape : Shape} (h : ofDims dims = .ok shape) :
    shape.dims = dims := by
  unfold ofDims at h
  by_cases hne : dims = []
  · rw [dif_pos hne] at h
    cases h
  · rw [dif_neg hne] at h
    by_cases hpos : ∀ d ∈ dims, 0 < d
    · rw [dif_pos hpos] at h
      cases h
      rfl
    · rw [dif_neg hpos] at h
      cases h

/-! ### Positions -/

/-- The number of elements before the one at the given indices, the last axis varying fastest. -/
def rowMajor : List Nat → List Nat → Nat
  | index :: indices, _ :: sizes => index * sizes.prod + rowMajor indices sizes
  | _, _ => 0

theorem position_eq_ok :
    ∀ {indices sizes : List Nat} {flat stride : Nat}, indices.length = sizes.length →
      (position indices sizes : Outcome ε (Nat × Nat)) = .ok (flat, stride) →
        flat = rowMajor indices sizes ∧ stride = sizes.prod := by
  intro indices
  induction indices with
  | nil =>
      intro sizes flat stride hlen h
      rw [List.eq_nil_of_length_eq_zero hlen.symm] at h ⊢
      cases h
      exact ⟨rfl, rfl⟩
  | cons index indices ih =>
      intro sizes flat stride hlen h
      cases sizes with
      | nil => simp at hlen
      | cons size sizes =>
          rw [position, bind_eq_ok] at h
          obtain ⟨⟨flat', stride'⟩, hrest, h⟩ := h
          obtain ⟨rfl, rfl⟩ := ih (by simpa using hlen) hrest
          rw [bind_eq_ok] at h
          obtain ⟨step, hstep, h⟩ := h
          obtain ⟨rfl, -⟩ := Size.mul_eq_ok_iff.mp hstep
          rw [bind_eq_ok] at h
          obtain ⟨sum, hsum, h⟩ := h
          obtain ⟨rfl, -⟩ := Size.add_eq_ok_iff.mp hsum
          rw [bind_eq_ok] at h
          obtain ⟨product, hproduct, h⟩ := h
          obtain ⟨rfl, -⟩ := Size.mul_eq_ok_iff.mp hproduct
          cases h
          exact ⟨Nat.add_comm .., by rw [List.prod_cons, Nat.mul_comm]⟩

/-- Indices that stay below the ends of their axes. -/
def Within : List Nat → List Nat → Prop
  | [], [] => True
  | index :: indices, size :: sizes => index < size ∧ Within indices sizes
  | _, _ => False

theorem checkAxes_eq_ok_iff :
    ∀ {indices sizes : List Nat} {axis : Nat}, indices.length = sizes.length →
      (checkAxes axis indices sizes = .ok () ↔ Within indices sizes) := by
  intro indices
  induction indices with
  | nil =>
      intro sizes axis hlen
      rw [List.eq_nil_of_length_eq_zero hlen.symm]
      exact iff_of_true rfl trivial
  | cons index indices ih =>
      intro sizes axis hlen
      cases sizes with
      | nil => simp at hlen
      | cons size sizes =>
          rw [checkAxes, Within]
          by_cases hlt : index < size
          · rw [if_pos hlt, ih (by simpa using hlen)]
            exact ⟨fun h => ⟨hlt, h⟩, fun h => h.2⟩
          · rw [if_neg hlt]
            exact iff_of_false (by simp) fun h => hlt h.1

theorem checkIndices_eq_ok_iff {shape : Shape} {indices : List Nat} :
    shape.checkIndices indices = .ok () ↔
      indices.length = shape.dims.length ∧ Within indices shape.dims := by
  rw [checkIndices, rank]
  by_cases hlen : indices.length = shape.dims.length
  · rw [if_pos hlen, checkAxes_eq_ok_iff hlen]
    exact ⟨fun h => ⟨hlen, h⟩, fun h => h.2⟩
  · rw [if_neg hlen]
    exact iff_of_false (by simp) fun h => hlen h.1

/-- The first of some indices that reaches the end of its axis. -/
structure FirstBeyond (indices sizes : List Nat) (axis index size : Nat) : Prop where
  index_eq : indices[axis]? = some index
  size_eq : sizes[axis]? = some size
  size_le : size ≤ index
  /-- The indices before it stay below the ends of theirs. -/
  earlier : ∀ j i s, j < axis → indices[j]? = some i → sizes[j]? = some s → i < s

/-- Indices that do not all stay below the ends of their axes are refused for the first one. -/
theorem checkAxes_of_not_within :
    ∀ {indices sizes : List Nat} (start : Nat), indices.length = sizes.length →
      ¬ Within indices sizes → ∃ axis index size, FirstBeyond indices sizes axis index size ∧
        checkAxes start indices sizes
          = .error (.error (.indexOutOfRange (start + axis) index size)) := by
  intro indices
  induction indices with
  | nil =>
      intro sizes _ hlen hbeyond
      rw [List.eq_nil_of_length_eq_zero hlen.symm] at hbeyond
      exact absurd trivial hbeyond
  | cons index indices ih =>
      intro sizes start hlen hbeyond
      cases sizes with
      | nil => simp at hlen
      | cons size sizes =>
          rw [checkAxes]
          by_cases hlt : index < size
          · obtain ⟨axis, other, bound, hfirst, hcheck⟩ :=
              ih (start + 1) (by simpa using hlen) fun hc => hbeyond ⟨hlt, hc⟩
            refine ⟨axis + 1, other, bound, ?_, ?_⟩
            · refine ⟨hfirst.index_eq, hfirst.size_eq, hfirst.size_le, ?_⟩
              intro j i s hj hi hs
              cases j with
              | zero =>
                  cases hi
                  cases hs
                  exact hlt
              | succ j => exact hfirst.earlier j i s (Nat.lt_of_succ_lt_succ hj) hi hs
            · rw [if_pos hlt, hcheck, Nat.add_right_comm, Nat.add_assoc]
          · refine ⟨0, index, size, ⟨rfl, rfl, Nat.le_of_not_lt hlt, nofun⟩, ?_⟩
            rw [if_neg hlt, Nat.add_zero]

theorem length_of_within :
    ∀ {indices sizes : List Nat}, Within indices sizes → indices.length = sizes.length := by
  intro indices
  induction indices with
  | nil =>
      intro sizes h
      cases sizes with
      | nil => rfl
      | cons => exact h.elim
  | cons index indices ih =>
      intro sizes h
      cases sizes with
      | nil => exact h.elim
      | cons size sizes => exact congrArg (· + 1) (ih h.2)

theorem lt_of_within :
    ∀ {indices sizes : List Nat}, Within indices sizes → ∀ {axis index size : Nat},
      indices[axis]? = some index → sizes[axis]? = some size → index < size := by
  intro indices
  induction indices with
  | nil =>
      intro sizes _ axis index size hindex _
      simp at hindex
  | cons first indices ih =>
      intro sizes h axis index size hindex hsize
      rcases sizes with _ | ⟨bound, sizes⟩
      · exact h.elim
      · rcases axis with _ | axis
        · simp only [List.getElem?_cons_zero, Option.some.injEq] at hindex hsize
          exact hindex ▸ hsize ▸ h.1
        · exact ih h.2 hindex hsize

@[simp] theorem rowMajor_nil (sizes : List Nat) : rowMajor [] sizes = 0 := by
  unfold rowMajor
  rfl

/-- What lies below indices into the first axes fits behind their position. -/
theorem rowMajor_add_le :
    ∀ {indices sizes : List Nat}, Within indices (sizes.take indices.length) →
      rowMajor indices sizes + (sizes.drop indices.length).prod ≤ sizes.prod := by
  intro indices
  induction indices with
  | nil =>
      intro sizes _
      simp
  | cons index indices ih =>
      intro sizes h
      rcases sizes with _ | ⟨size, sizes⟩
      · exact h.elim
      · have hrest := ih h.2
        have hstep : (index + 1) * sizes.prod ≤ size * sizes.prod := Nat.mul_le_mul_right _ h.1
        rw [Nat.succ_mul] at hstep
        rw [rowMajor, List.prod_cons, List.length_cons, List.drop_succ_cons]
        omega

theorem rowMajor_lt {indices sizes : List Nat} (h : Within indices sizes) :
    rowMajor indices sizes < sizes.prod := by
  have hlen := length_of_within h
  have hle := rowMajor_add_le (by rwa [hlen, List.take_length])
  rwa [hlen, List.drop_length, List.prod_nil] at hle

/-- A position that could be computed is the row-major one, and lies within the grid. -/
theorem flatIndex_eq_ok {shape : Shape} {indices : List Nat} {flat : Nat}
    (h : shape.flatIndex indices = .ok flat) :
    flat = rowMajor indices shape.dims ∧ rowMajor indices shape.dims < shape.dims.prod := by
  rw [flatIndex, bind_eq_ok] at h
  obtain ⟨⟨⟩, hcheck, h⟩ := h
  rw [bind_eq_ok] at h
  obtain ⟨⟨flat', stride⟩, hposition, h⟩ := h
  cases h
  obtain ⟨hlen, hwithin⟩ := checkIndices_eq_ok_iff.mp hcheck
  exact ⟨(position_eq_ok hlen hposition).1, rowMajor_lt hwithin⟩

/-- Where the grid as a whole can be counted every element in it has a position. -/
theorem position_of_within :
    ∀ {indices sizes : List Nat}, Within indices sizes → sizes.prod < Size.bound →
      (position indices sizes : Outcome ε (Nat × Nat))
        = .ok (rowMajor indices sizes, sizes.prod) := by
  intro indices
  induction indices with
  | nil =>
      intro sizes h _
      cases sizes with
      | nil => rfl
      | cons => exact h.elim
  | cons index indices ih =>
      intro sizes h hbound
      cases sizes with
      | nil => exact h.elim
      | cons size sizes =>
          have hlt := rowMajor_lt h
          rw [rowMajor] at hlt
          rw [List.prod_cons] at hbound hlt
          have hstride : sizes.prod ≤ size * sizes.prod :=
            Nat.le_mul_of_pos_left _ (Nat.zero_lt_of_lt h.1)
          rw [position, bind_eq_ok]
          refine ⟨_, ih h.2 (by omega), ?_⟩
          rw [bind_eq_ok]
          refine ⟨index * sizes.prod, Size.mul_eq_ok_iff.mpr ⟨rfl, by omega⟩, ?_⟩
          rw [bind_eq_ok]
          refine ⟨rowMajor (index :: indices) (size :: sizes),
            Size.add_eq_ok_iff.mpr ⟨Nat.add_comm .., by omega⟩, ?_⟩
          rw [bind_eq_ok]
          exact ⟨(size :: sizes).prod, Size.mul_eq_ok_iff.mpr
            ⟨by rw [List.prod_cons, Nat.mul_comm], by rwa [Nat.mul_comm]⟩, rfl⟩

theorem within_of_flatIndex {shape : Shape} {indices : List Nat} {flat : Nat}
    (h : shape.flatIndex indices = .ok flat) : Within indices shape.dims := by
  rw [flatIndex, bind_eq_ok] at h
  obtain ⟨⟨⟩, hcheck, -⟩ := h
  exact (checkIndices_eq_ok_iff.mp hcheck).2

theorem flatIndex_of_within {shape : Shape} {indices : List Nat}
    (h : Within indices shape.dims) (hbound : shape.dims.prod < Size.bound) :
    shape.flatIndex indices = .ok (rowMajor indices shape.dims) := by
  rw [flatIndex, bind_eq_ok]
  refine ⟨(), checkIndices_eq_ok_iff.mpr ⟨length_of_within h, h⟩, ?_⟩
  rw [bind_eq_ok]
  exact ⟨_, position_of_within h hbound, rfl⟩

theorem flatIndex_of_length_ne {shape : Shape} {indices : List Nat}
    (hlen : indices.length ≠ shape.dims.length) :
    shape.flatIndex indices
      = .error (.error (.indexRank shape.dims.length indices.length)) := by
  unfold flatIndex checkIndices rank
  rw [if_neg hlen]
  rfl

/-- A tuple of the right length that leaves the grid has no position. -/
theorem flatIndex_of_not_within {shape : Shape} {indices : List Nat}
    (hlen : indices.length = shape.dims.length) (hbeyond : ¬ Within indices shape.dims) :
    ∃ axis index size, FirstBeyond indices shape.dims axis index size ∧
      shape.flatIndex indices = .error (.error (.indexOutOfRange axis index size)) := by
  obtain ⟨axis, index, size, hfirst, hcheck⟩ :=
    checkAxes_of_not_within 0 hlen hbeyond
  refine ⟨axis, index, size, hfirst, ?_⟩
  rw [flatIndex, checkIndices, rank, if_pos hlen, hcheck, Nat.zero_add]
  rfl

end FieldStore.Shape
