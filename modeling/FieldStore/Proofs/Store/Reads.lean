/-
Every way of reading a field finds the same elements.

Reading an array cuts the words of the field into elements, decodes each of them and folds the
list along the axes; reading one element takes its words by position.  Both decode the same
windows of the same words, and folding keeps the elements in their order, so the element that the
array has at some indices is the one that stands at their position.  Nothing is asked of the words:
whatever bits a region holds, every window of the right length decodes.

The array is read first, because that is what can fail.  Once it has been read the tree of the
field has storage, and the other ways of reading need nothing else.
-/
import FieldStore.Proofs.Grid.Tuples
import FieldStore.Proofs.Store.Availability

namespace FieldStore

variable {field : Field}

/-! ### The elements of a run of words -/

section Elements

variable {words : List Word}

theorem getElem?_elements {position : Nat} (hlt : position < field.shape.dims.prod) :
    (field.elements words)[position]?
      = some (field.type.held (Lanes.ofWords (field.elementWords words position))) := by
  rw [Field.elements, List.getElem?_map, List.getElem?_range hlt]
  rfl

/-- The words of the elements, one element after the other, are all words. -/
theorem flatten_elementWords (hcheck : field.type.check = .ok ())
    (hlen : words.length = field.wordCount) :
    ((List.range field.shape.dims.prod).map (field.elementWords words)).flatten = words := by
  have hpos := ElementType.slotCount_pos hcheck
  obtain ⟨-, -, hflat⟩ := Grid.chunks_spec hpos hlen
  rw [Grid.chunks_eq_windows hpos hlen] at hflat
  exact hflat

/-- The numbers of the elements, one element after the other, are all numbers. -/
theorem numbers_elements {primitive : Primitive} (hcheck : field.type.check = .ok ())
    (hprimitive : field.type.primitive? = some primitive) (hlen : words.length = field.wordCount) :
    ∃ rows, (field.elements words).mapM field.type.tensorNumbers = .ok rows ∧
      rows.flatten = words.map primitive.ofWord := by
  refine ⟨((List.range field.shape.dims.prod).map (field.elementWords words)).map
    (List.map primitive.ofWord), ?_, ?_⟩
  · rw [Field.elements, List.mapM_map, List.map_map]
    refine mapM_eq_ok_map ?_
    intro position hmem
    have hroom : (position + 1) * field.type.slotCount ≤ words.length := by
      rw [hlen]
      exact Nat.mul_le_mul_right _ (List.mem_range.mp hmem)
    rw [Nat.succ_mul] at hroom
    have hwidth : (field.elementWords words position).length = field.type.slotCount :=
      length_window hroom
    rw [Function.comp_apply, ElementType.tensorNumbers_held hprimitive hcheck hwidth
      (by rw [Lanes.length_floats_ofWords, hwidth]), Lanes.numbers_ofWords]
    rfl
  · rw [← List.map_flatten, flatten_elementWords hcheck hlen]

end Elements

namespace Ledger

variable {ledger : Ledger} {number : Nat} {nested : NdArray Value}

/-! ### Reading the array -/

/-- The array that was read has the elements of the words that the field holds. -/
theorem filled_of_toArray (h : Placed ledger.fields ledger.host)
    (hfield : ledger.fields[number]? = some field)
    (harray : ledger.outcome (.query number .toArray) = .ok (.array nested)) :
    nested.Filled (fun _ => True) field.shape.dims ∧
      nested.leaves = field.elements (ledger.host.held field) := by
  have hmem := List.mem_of_getElem? hfield
  obtain ⟨-, hfits⟩ := h.valid field hmem
  have hanswer := answer_of_outcome h hfield harray
  rw [Query.answer, bind_eq_ok] at hanswer
  obtain ⟨elements, helements, hanswer⟩ := hanswer
  rw [bind_eq_ok] at hanswer
  obtain ⟨found, hfound, heq⟩ := hanswer
  cases heq
  cases (mapM_decodeWords hfits (Host.length_held h hmem)).symm.trans helements
  obtain ⟨hfilled, hleaves⟩ := NdArray.filled_of_reshape field.shape.dims_pos hfound
  exact ⟨hfilled.mono fun _ _ => trivial, hleaves⟩

/-- Afterwards the field is the same, holds the same words and has storage. -/
theorem after_toArray (h : Placed ledger.fields ledger.host)
    (hfield : ledger.fields[number]? = some field)
    (harray : ledger.outcome (.query number .toArray) = .ok (.array nested)) :
    let later := ledger.step (.query number .toArray)
    later.fields[number]? = some field ∧ later.host.held field = ledger.host.held field ∧
      later.host.program.isMaterialized field.tree = true := by
  intro later
  have hmem := List.mem_of_getElem? hfield
  have hrun : (Command.query number .toArray).run ledger.fields = Query.toArray.run field := by
    simp only [Command.run, hfield]
  have hlater : later.host = (Host.runs (Query.toArray.run field) ledger.host).2 := by
    rw [← hrun]
    rfl
  refine ⟨getElem?_fields_after [.query number .toArray] hfield, ?_⟩
  rw [outcome, hrun] at harray
  rcases Host.runs_of_ends (ends_query .toArray h) with
    ⟨reply, host', hends, hkept, hreplies⟩ | ⟨failure, host', hends, -⟩
  · rw [hends] at hlater
    obtain ⟨lanes, -, -, hreads, -⟩ := hreplies
    obtain ⟨-, -, id, -, -, hstorage, -⟩ := hreads
    rw [hlater]
    exact ⟨Host.held_of_grown h hkept.grown hmem, Host.isMaterialized_of_storage hstorage⟩
  · rw [hends] at harray
    cases harray

/-! ### Reading one element -/

/-- The element at indices within the axes is the one at their position. -/
theorem outcome_get_of_within {indices : List Nat} (h : Placed ledger.fields ledger.host)
    (hfield : ledger.fields[number]? = some field)
    (hstored : ledger.host.program.isMaterialized field.tree = true)
    (hwithin : Shape.Within indices field.shape.dims) :
    ledger.outcome (.query number (.get indices))
      = .ok (.value (field.type.held (Lanes.ofWords (field.elementWords (ledger.host.held field)
          (Shape.rowMajor indices field.shape.dims))))) := by
  have hmem := List.mem_of_getElem? hfield
  obtain ⟨-, hfits⟩ := h.valid field hmem
  obtain ⟨reply, hreply⟩ :=
    (query_succeeds_iff (.get indices) h hfield hwithin).mpr (Or.inl hstored)
  have hanswer := answer_of_outcome h hfield hreply
  simp only [Query.answer, decodeWords_elementWords hfits (Host.length_held h hmem)
    (Shape.rowMajor_lt hwithin), bind, Except.bind] at hanswer
  rw [hreply, ← hanswer]
  rfl

/-- Indices without a position are refused before anything is read. -/
theorem outcome_get_of_error {indices : List Nat} {failure : Failure FieldError}
    (hfield : ledger.fields[number]? = some field)
    (hflat : field.shape.flatIndex indices = .error failure) :
    ledger.outcome (.query number (.get indices)) = .error failure := by
  have hrange : field.byteRange indices = .error failure := by
    rw [Field.byteRange, hflat]
    rfl
  simp only [outcome, Command.run, hfield, Query.run, Field.get, hrange, Host.runs_bind,
    Host.runs_lift]

/-! ### Reading all numbers -/

theorem outcome_toNumbers {primitive : Primitive} (h : Placed ledger.fields ledger.host)
    (hfield : ledger.fields[number]? = some field)
    (hstored : ledger.host.program.isMaterialized field.tree = true)
    (hprimitive : field.type.primitive? = some primitive) :
    ledger.outcome (.query number .toNumbers)
      = .ok (.numbers ((ledger.host.held field).map primitive.ofWord)) := by
  have hvalid : Query.Valid field .toNumbers := by
    rw [Query.Valid, hprimitive]
    rfl
  obtain ⟨reply, hreply⟩ := (query_succeeds_iff .toNumbers h hfield hvalid).mpr (Or.inl hstored)
  have hanswer := answer_of_outcome h hfield hreply
  simp only [Query.answer, hprimitive] at hanswer
  rw [hreply, ← hanswer]

/-- **All ways of reading a field find the same elements.**  In every state that a run reaches,
whatever the regions hold, take a field whose array can be read.  Afterwards the element at any
indices that the shape accepts is the one that the array has there; any other tuple of as many
indices reaches nothing in the array and is refused for its first index that is too large; and
the numbers of a field of tensor type are those of the elements of the array from left to right,
which is the order of the index tuples. -/
theorem read_paths_agree (limit : Option Nat) (nextId : Nat) (history : List Command) :
    let now := (start limit nextId).after history
    ∀ (number : Nat) (field : Field) (nested : NdArray Value),
      now.fields[number]? = some field →
      now.outcome (.query number .toArray) = .ok (.array nested) →
        let later := now.step (.query number .toArray)
        (∀ indices, field.shape.checkIndices indices = .ok () →
          ∃ value, nested.at? indices = some (.element value) ∧
            later.outcome (.query number (.get indices)) = .ok (.value value)) ∧
        (∀ indices, indices.length = field.shape.rank →
          field.shape.checkIndices indices ≠ .ok () →
            nested.at? indices = none ∧ ∃ axis index size,
              Shape.FirstBeyond indices field.shape.dims axis index size ∧
              later.outcome (.query number (.get indices))
                = .error (.error (.indexOutOfRange axis index size))) ∧
        (field.type.primitive?.isSome = true → ∃ rows : List (List Binary64),
          nested.leaves.mapM field.type.tensorNumbers = .ok rows ∧
          later.outcome (.query number .toNumbers) = .ok (.numbers rows.flatten)) ∧
        ∀ tuples : List (List Nat),
          (Grid.tuples field.shape.dims : Outcome FieldError (List (List Nat))) = .ok tuples →
            tuples.map nested.at? = nested.leaves.map fun value => some (.element value) := by
  intro now number field nested hfield harray later
  have hplaced := (stays_after history (placed_start limit nextId)).placed
  have hlater := (stays_step (.query number .toArray) hplaced).placed
  obtain ⟨hcheck, -⟩ := hplaced.valid field (List.mem_of_getElem? hfield)
  obtain ⟨hfilled, hleaves⟩ := filled_of_toArray hplaced hfield harray
  obtain ⟨hfield', hheld, hstored⟩ := after_toArray hplaced hfield harray
  refine ⟨?_, ?_, ?_, ?_⟩
  · intro indices haccepted
    obtain ⟨-, hwithin⟩ := Shape.checkIndices_eq_ok_iff.mp haccepted
    obtain ⟨value, hat, hvalue⟩ := NdArray.at?_of_filled hfilled hwithin
    rw [hleaves, getElem?_elements (Shape.rowMajor_lt hwithin)] at hvalue
    refine ⟨value, hat, ?_⟩
    rw [outcome_get_of_within hlater hfield' hstored hwithin, hheld, Option.some.inj hvalue]
  · intro indices hlen hrefused
    have hbeyond : ¬ Shape.Within indices field.shape.dims :=
      fun hwithin => hrefused (Shape.checkIndices_eq_ok_iff.mpr ⟨hlen, hwithin⟩)
    obtain ⟨axis, index, size, hfirst, hflat⟩ := Shape.flatIndex_of_not_within hlen hbeyond
    exact ⟨NdArray.at?_of_not_within hfilled hlen hbeyond, axis, index, size, hfirst,
      outcome_get_of_error hfield' hflat⟩
  · intro htensor
    obtain ⟨primitive, hprimitive⟩ := Option.isSome_iff_exists.mp htensor
    obtain ⟨rows, hrows, hnumbers⟩ := numbers_elements hcheck hprimitive
      (Host.length_held hplaced (List.mem_of_getElem? hfield))
    refine ⟨rows, by rw [hleaves, hrows], ?_⟩
    rw [outcome_toNumbers hlater hfield' hstored hprimitive, hheld, hnumbers]
  · intro tuples htuples
    exact Grid.map_at?_tuples htuples hfilled

/-- Two vectors whose slots hold a signalling NaN, a negative zero and a subnormal number. -/
theorem read_paths_agree_bits :
    let now := (start none 0).after [.declare (.vector .f32 2) [2],
      .update 0 (.write [0x7f800001, 0x3f800000, 0x80000000, 0x00000001] none)]
    let later := now.step (.query 0 .toArray)
    ∃ nested : NdArray Value, now.outcome (.query 0 .toArray) = .ok (.array nested) ∧
      (∃ value, nested.at? [1] = some (.element value) ∧
        later.outcome (.query 0 (.get [1])) = .ok (.value value)) ∧
      nested.at? [2] = none ∧
      (∃ axis index size, later.outcome (.query 0 (.get [2]))
        = .error (.error (.indexOutOfRange axis index size))) ∧
      ∃ numbers, later.outcome (.query 0 .toNumbers) = .ok (.numbers numbers) := by
  intro now later
  obtain ⟨field, nested, hfield, harray, haccepted, hrank, hrefused, htensor⟩ :
      ∃ (field : Field) (nested : NdArray Value), now.fields[0]? = some field ∧
        now.outcome (.query 0 .toArray) = .ok (.array nested) ∧
        field.shape.checkIndices [1] = .ok () ∧ [2].length = field.shape.rank ∧
        field.shape.checkIndices [2] ≠ .ok () ∧ field.type.primitive?.isSome = true :=
    ⟨_, _, rfl, rfl, rfl, rfl, nofun, rfl⟩
  obtain ⟨hget, hbeyond, hnumbers, -⟩ := read_paths_agree none 0 _ 0 field nested hfield harray
  obtain ⟨hnone, axis, index, size, -, herror⟩ := hbeyond [2] hrank hrefused
  obtain ⟨rows, -, hflat⟩ := hnumbers htensor
  exact ⟨nested, harray, hget [1] haccepted, hnone, ⟨axis, index, size, herror⟩, _, hflat⟩

end Ledger

end FieldStore
