/-
Positions number the index tuples of a grid.

Three recursions meet here.  The position of a tuple is summed up from the last axis, with a stride
that grows on the way; the elements are counted from the first axis; and the tuples are listed axis
by axis, the first one outermost.  They agree: the tuple at place `k` of the list has position `k`,
and there are as many as there are elements.

None of it overflows as long as the elements can be counted.  No axis is zero, so a stride divides
the number of elements, and what an index contributes stays below the next stride.  Listing is
another matter: the list has to be held, one handle for each tuple.
-/
import FieldStore.Proofs.Grid.Tuples

namespace FieldStore.Shape

variable {ε : Type} {indices sizes : List Nat}

/-! ### From the first axis on -/

/-- The position built up from the first axis on: what there is so far is multiplied by an axis
before its index is added. -/
def accumulate (indices sizes : List Nat) : Nat :=
  (indices.zip sizes).foldl (fun position entry => position * entry.2 + entry.1) 0

theorem foldl_eq_rowMajor :
    ∀ {indices sizes : List Nat} (start : Nat), indices.length = sizes.length →
      (indices.zip sizes).foldl (fun position entry => position * entry.2 + entry.1) start
        = start * sizes.prod + rowMajor indices sizes := by
  intro indices
  induction indices with
  | nil =>
      intro sizes start hlen
      rw [List.eq_nil_of_length_eq_zero hlen.symm]
      simp
  | cons index indices ih =>
      intro sizes start hlen
      rcases sizes with _ | ⟨size, sizes⟩
      · simp at hlen
      · rw [List.zip_cons_cons, List.foldl_cons, ih _ (by simpa using hlen), rowMajor,
          List.prod_cons, Nat.add_mul, Nat.mul_assoc, Nat.add_assoc]

theorem accumulate_eq_rowMajor (hlen : indices.length = sizes.length) :
    accumulate indices sizes = rowMajor indices sizes := by
  unfold accumulate
  rw [foldl_eq_rowMajor 0 hlen, Nat.zero_mul, Nat.zero_add]

/-! ### Nothing overflows -/

theorem pos_of_within :
    ∀ {indices sizes : List Nat}, Within indices sizes → ∀ size ∈ sizes, 0 < size := by
  intro indices
  induction indices with
  | nil =>
      intro sizes h size hmem
      rcases sizes with _ | ⟨first, sizes⟩
      · simp at hmem
      · exact h.elim
  | cons index indices ih =>
      intro sizes h size hmem
      rcases sizes with _ | ⟨first, sizes⟩
      · exact h.elim
      · rcases List.mem_cons.mp hmem with rfl | hmem
        · exact Nat.zero_lt_of_lt h.1
        · exact ih h.2 size hmem

theorem within_drop :
    ∀ {indices sizes : List Nat} (count : Nat), Within indices sizes →
      Within (indices.drop count) (sizes.drop count) := by
  intro indices sizes count
  induction count generalizing indices sizes with
  | zero => exact id
  | succ count ih =>
      intro h
      rcases indices with _ | ⟨index, indices⟩
      · rcases sizes with _ | ⟨size, sizes⟩
        · trivial
        · exact h.elim
      · rcases sizes with _ | ⟨size, sizes⟩
        · exact h.elim
        · exact ih h.2

theorem prod_drop_le (hpos : ∀ size ∈ sizes, 0 < size) (count : Nat) :
    (sizes.drop count).prod ≤ sizes.prod := by
  have hfront : 0 < (sizes.take count).prod :=
    List.prod_pos_iff_forall_pos_nat.mpr fun size hmem => hpos size (List.mem_of_mem_take hmem)
  calc (sizes.drop count).prod
      ≤ (sizes.take count).prod * (sizes.drop count).prod := Nat.le_mul_of_pos_left _ hfront
    _ = sizes.prod := by rw [← List.prod_append, List.take_append_drop]

/-- What is reached before an axis is taken in, and that the step over the axis fits. -/
theorem position_step (h : Within indices sizes) (hbound : sizes.prod < Size.bound)
    {axis index size : Nat} (hindex : indices[axis]? = some index)
    (hsize : sizes[axis]? = some size) :
    ∃ flat stride, (position (indices.drop (axis + 1)) (sizes.drop (axis + 1)) :
        Outcome ε (Nat × Nat)) = .ok (flat, stride) ∧
      index * stride < Size.bound ∧ flat + index * stride < Size.bound ∧
        stride * size < Size.bound := by
  have hrest := within_drop (axis + 1) h
  have hstride : (sizes.drop axis).prod = size * (sizes.drop (axis + 1)).prod := by
    obtain ⟨hlt, rfl⟩ := List.getElem?_eq_some_iff.mp hsize
    rw [List.drop_eq_getElem_cons hlt, List.prod_cons]
  have hle : (sizes.drop axis).prod ≤ sizes.prod := prod_drop_le (pos_of_within h) axis
  have hflat := rowMajor_lt hrest
  have hmul : (index + 1) * (sizes.drop (axis + 1)).prod ≤ size * (sizes.drop (axis + 1)).prod :=
    Nat.mul_le_mul_right _ (lt_of_within h hindex hsize)
  rw [Nat.succ_mul] at hmul
  have hnext : (sizes.drop (axis + 1)).prod < Size.bound :=
    Nat.lt_of_le_of_lt (prod_drop_le (pos_of_within h) (axis + 1)) hbound
  refine ⟨_, _, position_of_within hrest hnext, by omega, by omega, ?_⟩
  rw [Nat.mul_comm]
  omega

end FieldStore.Shape

namespace FieldStore.Grid

open Shape

variable {ε : Type} {axes : List Nat} {list : List (List Nat)}

/-! ### The order of the tuples -/

/-- The tuples come in lexicographic order, each one strictly before the next. -/
theorem pairwise_tuples :
    ∀ {axes : List Nat} {list : List (List Nat)},
      (tuples axes : Outcome ε (List (List Nat))) = .ok list →
        list.Pairwise (List.Lex (· < ·)) := by
  intro axes
  induction axes with
  | nil =>
      intro list h
      rw [← Except.ok.inj h]
      simp
  | cons axis axes ih =>
      intro list h
      obtain ⟨inner, hinner, -, rfl⟩ := tuples_cons_eq_ok h
      rw [List.pairwise_flatMap]
      constructor
      · intro i _
        rw [List.pairwise_map]
        exact (ih hinner).imp .cons
      · refine List.pairwise_lt_range.imp ?_
        intro i j hlt x hx y hy
        obtain ⟨tail, -, rfl⟩ := List.mem_map.mp hx
        obtain ⟨tail', -, rfl⟩ := List.mem_map.mp hy
        exact .rel hlt

/-- So none comes twice. -/
theorem nodup_tuples (h : (tuples axes : Outcome ε (List (List Nat))) = .ok list) :
    list.Nodup := by
  refine (pairwise_tuples h).imp ?_
  rintro tuple tuple' hlex rfl
  exact List.lex_irrefl Nat.lt_irrefl _ hlex

/-! ### When they can be listed -/

theorem tuples_cons {axis : Nat} {inner : List (List Nat)}
    (hinner : (tuples axes : Outcome ε (List (List Nat))) = .ok inner)
    (hbound : axis * axes.prod < Size.bound) :
    (tuples (axis :: axes) : Outcome ε (List (List Nat)))
      = Size.reserve listWidth (axis * axes.prod) >>= fun _ =>
          .ok ((List.range axis).flatMap fun i => inner.map (i :: ·)) := by
  rw [← length_tuples hinner] at hbound ⊢
  simp only [tuples, hinner, Size.mul, if_pos hbound, bind, Except.bind]
  rfl

theorem tuples_of_room :
    ∀ {axes : List Nat}, (∀ axis ∈ axes, 0 < axis) → listWidth * axes.prod ≤ Size.objectLimit →
      ∃ list, (tuples axes : Outcome ε (List (List Nat))) = .ok list := by
  intro axes
  induction axes with
  | nil => intro _ _; exact ⟨_, rfl⟩
  | cons axis axes ih =>
      intro hpos hroom
      rw [List.prod_cons] at hroom
      have hinner : axes.prod ≤ axis * axes.prod :=
        Nat.le_mul_of_pos_left _ (hpos axis List.mem_cons_self)
      obtain ⟨inner, htuples⟩ := ih (fun other hmem => hpos other (List.mem_cons_of_mem _ hmem))
        (Nat.le_trans (Nat.mul_le_mul_left _ hinner) hroom)
      have hbound : axis * axes.prod < Size.bound := by
        unfold listWidth Size.objectLimit at hroom
        unfold Size.bound
        omega
      refine ⟨(List.range axis).flatMap fun i => inner.map (i :: ·), ?_⟩
      rw [tuples_cons htuples hbound, Size.reserve, if_pos hroom]
      rfl

/-- Tuples of a grid that can be counted are not listed for want of room only. -/
theorem tuples_eq_error :
    ∀ {axes : List Nat} {failure : Failure ε}, (∀ axis ∈ axes, 0 < axis) →
      axes.prod < Size.bound → tuples axes = .error failure → failure = .fault .capacity := by
  intro axes
  induction axes with
  | nil => intro failure _ _ h; simp [tuples] at h
  | cons axis axes ih =>
      intro failure hpos hbound h
      rw [List.prod_cons] at hbound
      have hinner : axes.prod ≤ axis * axes.prod :=
        Nat.le_mul_of_pos_left _ (hpos axis List.mem_cons_self)
      rcases htuples : (tuples axes : Outcome ε (List (List Nat))) with cause | inner
      · rw [tuples, htuples] at h
        rw [← Except.error.inj h]
        exact ih (fun other hmem => hpos other (List.mem_cons_of_mem _ hmem))
          (Nat.lt_of_le_of_lt hinner hbound) htuples
      · rw [tuples_cons htuples hbound, bind_eq_error] at h
        rcases h with h | ⟨_, -, h⟩
        · exact Size.reserve_eq_error h
        · simp at h

theorem tuples_of_no_room (hne : axes ≠ []) (hpos : ∀ axis ∈ axes, 0 < axis)
    (hbound : axes.prod < Size.bound) (hroom : ¬ listWidth * axes.prod ≤ Size.objectLimit) :
    (tuples axes : Outcome ε (List (List Nat))) = .error (.fault .capacity) := by
  rcases htuples : (tuples axes : Outcome ε (List (List Nat))) with failure | list
  · rw [tuples_eq_error hpos hbound htuples]
  · exact absurd (prod_le_of_tuples hne htuples) hroom

/-- **Positions are exact and number the tuples.**  Take a shape whose elements can be counted.  A
tuple of another length is refused for it, and one that reaches the end of an axis is refused for
the first such axis.  For every other one the sum from the last axis has room at each step, ends
below the number of elements and is what accumulating from the first axis gives.  If the tuples can
be listed, the list has one for every element, all different and in lexicographic order; the one at
place `k` has position `k`, and every tuple that the shape accepts is among them.  If they cannot,
listing them fails with `capacity`. -/
theorem positions_number_tuples {dims : List Nat} {shape : Shape}
    (hshape : Shape.ofDims dims = .ok shape) (hbound : dims.prod < Size.bound) :
    (shape.total : Outcome FieldError Nat) = .ok dims.prod ∧
    (∀ indices : List Nat,
      (indices.length ≠ dims.length →
        shape.flatIndex indices = .error (.error (.indexRank dims.length indices.length))) ∧
      (indices.length = dims.length → ¬ Within indices dims →
        ∃ axis index size, FirstBeyond indices dims axis index size ∧
          shape.flatIndex indices = .error (.error (.indexOutOfRange axis index size))) ∧
      (Within indices dims →
        shape.flatIndex indices = .ok (accumulate indices dims) ∧
        accumulate indices dims < dims.prod ∧
        ∀ axis index size : Nat, indices[axis]? = some index → dims[axis]? = some size →
          ∃ flat stride, (position (indices.drop (axis + 1)) (dims.drop (axis + 1)) :
              Outcome FieldError (Nat × Nat)) = .ok (flat, stride) ∧
            index * stride < Size.bound ∧ flat + index * stride < Size.bound ∧
              stride * size < Size.bound)) ∧
    (listWidth * dims.prod ≤ Size.objectLimit →
      ∃ list, (tuples dims : Outcome FieldError (List (List Nat))) = .ok list ∧
        list.length = dims.prod ∧ list.Nodup ∧ list.Pairwise (List.Lex (· < ·)) ∧
        (∀ (k : Nat) (indices : List Nat), list[k]? = some indices →
          shape.flatIndex indices = .ok k) ∧
        ∀ indices, shape.checkIndices indices = .ok () → indices ∈ list) ∧
    (¬ listWidth * dims.prod ≤ Size.objectLimit →
      (tuples dims : Outcome FieldError (List (List Nat))) = .error (.fault .capacity)) := by
  have hdims := dims_of_ofDims hshape
  subst hdims
  refine ⟨Size.product_of_lt shape.dims_pos hbound, ?_, ?_,
    tuples_of_no_room shape.dims_ne_nil shape.dims_pos hbound⟩
  · intro indices
    refine ⟨flatIndex_of_length_ne, flatIndex_of_not_within, ?_⟩
    intro hwithin
    rw [accumulate_eq_rowMajor (length_of_within hwithin)]
    refine ⟨flatIndex_of_within hwithin hbound, rowMajor_lt hwithin, ?_⟩
    intro axis index size hindex hsize
    exact position_step hwithin hbound hindex hsize
  · intro hroom
    obtain ⟨list, hlist⟩ := tuples_of_room (ε := FieldError) shape.dims_pos hroom
    refine ⟨list, hlist, length_tuples hlist, nodup_tuples hlist, pairwise_tuples hlist, ?_, ?_⟩
    · intro k indices hget
      have hwithin := (mem_tuples_iff hlist indices).mp (List.mem_of_getElem? hget)
      rw [flatIndex_of_within hwithin hbound, rowMajor_of_getElem?_tuples hlist hget]
    · intro indices haccepted
      exact (mem_tuples_iff hlist indices).mpr (checkIndices_eq_ok_iff.mp haccepted).2

/-- The grid of all elements that can be counted, 2^64 - 1 of them, and one that can be listed. -/
theorem positions_number_tuples_up_to_bound :
    (∃ shape, Shape.ofDims [0xffffffff, 0x100000001] = .ok shape ∧
      [0xffffffff, 0x100000001].prod < Size.bound ∧
      shape.flatIndex [0xfffffffe, 0x100000000] = .ok 0xfffffffffffffffe ∧
      ∃ axis index size, shape.flatIndex [0, 0x100000001]
        = .error (.error (.indexOutOfRange axis index size))) ∧
    ∃ shape, Shape.ofDims [2, 3] = .ok shape ∧ [2, 3].prod < Size.bound ∧
      ∃ list, (tuples [2, 3] : Outcome FieldError (List (List Nat))) = .ok list ∧
        list.Pairwise (List.Lex (· < ·)) ∧ [1, 2] ∈ list := by
  constructor
  · have hbound : [0xffffffff, 0x100000001].prod < Size.bound := by decide
    obtain ⟨-, htuples, -⟩ := positions_number_tuples rfl hbound
    refine ⟨_, rfl, hbound, ((htuples _).2.2 ?_).1, ?_⟩
    · simp [Within]
    · obtain ⟨axis, index, size, -, herror⟩ := (htuples [0, 0x100000001]).2.1 rfl (by simp [Within])
      exact ⟨axis, index, size, herror⟩
  · have hbound : [2, 3].prod < Size.bound := by decide
    obtain ⟨-, -, hlisted, -⟩ := positions_number_tuples rfl hbound
    obtain ⟨list, hlist, -, -, hordered, -, hcomplete⟩ := hlisted (by decide)
    exact ⟨_, rfl, hbound, list, hlist, hordered, hcomplete [1, 2] rfl⟩

/-- A shape may have more elements than a list can hold tuples. -/
theorem tuples_of_unlistable :
    (∃ shape, Shape.ofDims [0x4000000000000000] = .ok shape) ∧
      [0x4000000000000000].prod < Size.bound ∧
      ∀ list, (tuples [0x4000000000000000] : Outcome FieldError (List (List Nat))) ≠ .ok list := by
  have hbound : [0x4000000000000000].prod < Size.bound := by decide
  refine ⟨⟨_, rfl⟩, hbound, ?_⟩
  intro list
  rw [tuples_of_no_room (by decide) (by decide) hbound (by decide)]
  simp

end FieldStore.Grid
