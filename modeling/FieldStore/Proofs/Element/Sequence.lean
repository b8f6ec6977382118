/-
The elements of a run, one after the other.

A run is `Whole` for elements of `n` slots if both lanes have the same length and that length is
a multiple of `n`.  Exactly then it is the concatenation of runs of one element each, and all
that is said here comes from that: both lanes are cut at the same places, so the runs cut out
are the ones that were put together, each decodes because it has the length that its type asks
for, and the concatenation of two whole runs is cut where either of them was.
-/
import FieldStore.Proofs.Element.Reading

namespace FieldStore

namespace Lanes

/-! ### Concatenation -/

/-- All runs of a list, one behind the other. -/
def concat (runs : List Lanes) : Lanes :=
  ⟨(runs.map ints).flatten, (runs.map floats).flatten⟩

/-- Whether both views have `n` entries. -/
def Spans (n : Nat) (lanes : Lanes) : Prop := lanes.ints.length = n ∧ lanes.floats.length = n

/-- Whether a run splits into elements of `n` slots. -/
def Whole (n : Nat) (lanes : Lanes) : Prop :=
  lanes.ints.length = lanes.floats.length ∧ lanes.ints.length % n = 0

instance (n : Nat) (lanes : Lanes) : Decidable (lanes.Whole n) := by
  unfold Whole
  infer_instance

theorem concat_append (runs runs' : List Lanes) :
    concat (runs ++ runs') = concat runs ++ concat runs' := by
  show concat (runs ++ runs') = Lanes.mk _ _
  simp only [concat, List.map_append, List.flatten_append]

variable {n : Nat} {runs : List Lanes}

theorem spans_ints (h : ∀ run ∈ runs, run.Spans n) : ∀ row ∈ runs.map ints, row.length = n :=
  List.forall_mem_map.mpr fun run hmem => (h run hmem).1

theorem spans_floats (h : ∀ run ∈ runs, run.Spans n) : ∀ row ∈ runs.map floats, row.length = n :=
  List.forall_mem_map.mpr fun run hmem => (h run hmem).2

theorem length_ints_concat (h : ∀ run ∈ runs, run.Spans n) :
    (concat runs).ints.length = runs.length * n := by
  rw [concat, Grid.length_flatten (spans_ints h), List.length_map]

theorem length_floats_concat (h : ∀ run ∈ runs, run.Spans n) :
    (concat runs).floats.length = runs.length * n := by
  rw [concat, Grid.length_flatten (spans_floats h), List.length_map]

theorem whole_concat (h : ∀ run ∈ runs, run.Spans n) : (concat runs).Whole n := by
  rw [Whole, length_ints_concat h, length_floats_concat h]
  exact ⟨rfl, Nat.mul_mod_left ..⟩

/-- A run that splits into elements is put together from runs of one element each. -/
theorem Whole.exists_runs {lanes : Lanes} (h : lanes.Whole n) :
    ∃ runs : List Lanes, (∀ run ∈ runs, run.Spans n) ∧ concat runs = lanes := by
  obtain ⟨hlen, hmod⟩ := h
  have hints := (Nat.div_mul_cancel (Nat.dvd_of_mod_eq_zero hmod)).symm
  obtain ⟨ints, hcount, hrows, hflat⟩ := Grid.exists_rows n _ lanes.ints hints
  obtain ⟨floats, hcount', hrows', hflat'⟩ :=
    Grid.exists_rows n _ lanes.floats (hlen.symm.trans hints)
  have hsame : ints.length = floats.length := hcount.trans hcount'.symm
  refine ⟨(ints.zip floats).map fun row => ⟨row.1, row.2⟩, ?_, ?_⟩
  · refine List.forall_mem_map.mpr fun row hmem => ?_
    obtain ⟨hmem, hmem'⟩ := List.of_mem_zip hmem
    exact ⟨hrows _ hmem, hrows' _ hmem'⟩
  · rw [concat, List.map_map, List.map_map]
    show Lanes.mk ((ints.zip floats).map Prod.fst).flatten
      ((ints.zip floats).map Prod.snd).flatten = lanes
    rw [List.map_fst_zip (Nat.le_of_eq hsame), List.map_snd_zip (Nat.le_of_eq hsame.symm), hflat,
      hflat']

/-- Each of the runs that were put together is where it was put. -/
theorem cut_concat (h : ∀ run ∈ runs, run.Spans n) {i : Nat} {run : Lanes}
    (hrun : runs[i]? = some run) : (concat runs).cut (i * n) n = run := by
  have hints : (runs.map ints)[i]? = some run.ints := by rw [List.getElem?_map, hrun]; rfl
  have hfloats : (runs.map floats)[i]? = some run.floats := by rw [List.getElem?_map, hrun]; rfl
  simp only [cut, concat, Grid.window_flatten (spans_ints h) hints,
    Grid.window_flatten (spans_floats h) hfloats]

end Lanes

namespace ElementType

/-! ### One element after the other -/

variable {ty : ElementType}

/-- A run that does not split into elements is refused before anything is decoded. -/
theorem decodeAll_of_not_whole {lanes : Lanes} (hvalid : ty.check = .ok ())
    (hfits : ty.slotCount ≤ Size.objectLimit) (h : ¬ lanes.Whole ty.slotCount) :
    ty.decodeAll lanes = .error (.error
      (.mismatch (.partialElements lanes.ints.length lanes.floats.length ty.slotCount))) := by
  have hpos := Nat.ne_of_gt (slotCount_pos hvalid)
  simp only [decodeAll, slotTotal_of_le hfits, bind, Except.bind, if_neg hpos]
  exact if_neg h

/-- Runs of one element each are found again in their concatenation and decoded one by one. -/
theorem decodeAll_concat {runs : List Lanes} (hvalid : ty.check = .ok ())
    (hfits : ty.slotCount ≤ Size.objectLimit) (hruns : ∀ run ∈ runs, run.Spans ty.slotCount) :
    ty.decodeAll (.concat runs) = .ok (runs.map ty.held) := by
  have hpos := slotCount_pos hvalid
  have hdecode : ∀ run ∈ runs, ty.decode run = .ok (ty.held run) :=
    fun run hmem => decode_eq ty run hfits (hruns run hmem).1 (hruns run hmem).2
  simp only [decodeAll, slotTotal_of_le hfits, bind, Except.bind, if_neg (Nat.ne_of_gt hpos)]
  refine (if_pos (Lanes.whole_concat hruns)).trans ?_
  simp only [Lanes.concat]
  rw [Grid.chunks_flatten hpos (Lanes.spans_ints hruns),
    Grid.chunks_flatten hpos (Lanes.spans_floats hruns), List.zip_map', List.mapM_map]
  exact mapM_eq_ok_map hdecode

/-- The encodings of conforming values put together decode to what the values are stored as. -/
theorem decodeAll_encodings {values : List Value} (hvalid : ty.check = .ok ())
    (hfits : ty.slotCount ≤ Size.objectLimit) (hconform : ∀ value ∈ values, ty.Conforms value) :
    ∃ runs : List Lanes, values.mapM ty.encode = .ok runs ∧
      runs.mapM ty.decode = .ok (values.map ty.stored) ∧
      ty.decodeAll (.concat runs) = .ok (values.map ty.stored) := by
  have hencode : ∀ value ∈ values, ty.encode value = .ok (Lanes.ofWords (ty.words value)) :=
    fun value hmem => encode_eq ty value hfits (hconform value hmem)
  have hspans : ∀ run ∈ values.map fun value => Lanes.ofWords (ty.words value),
      run.Spans ty.slotCount := by
    refine List.forall_mem_map.mpr fun value hmem => ?_
    have hlen := length_words ty value (hconform value hmem)
    exact ⟨hlen, (Lanes.length_floats_ofWords _).trans hlen⟩
  have hheld : (values.map fun value => Lanes.ofWords (ty.words value)).map ty.held
      = values.map ty.stored := by
    rw [List.map_map]
    exact List.map_congr_left fun value hmem => held_words ty value hvalid (hconform value hmem)
  refine ⟨_, mapM_eq_ok_map hencode, ?_, ?_⟩
  · rw [← hheld]
    exact mapM_eq_ok_map fun run hmem => decode_eq ty run hfits (hspans run hmem).1
      (hspans run hmem).2
  · rw [← hheld]
    exact decodeAll_concat hvalid hfits hspans

/-- **Decoding a run decodes its elements.**  It fails exactly for a run that does not split
into elements, whatever the slots hold.  Otherwise the run has an element for every `n` slots,
each of them what its own `n` slots decode to in both lanes, and no such decoding fails.  What
two runs that split hold one behind the other is what the one and then the other holds; and the
encodings of conforming values, put together, hold those values, each as it comes back from its
own encoding. -/
theorem decodeAll_elementwise (hvalid : ty.check = .ok ())
    (hfits : ty.slotCount ≤ Size.objectLimit) :
    (∀ lanes : Lanes, ¬ lanes.Whole ty.slotCount →
      ty.decodeAll lanes = .error (.error
        (.mismatch (.partialElements lanes.ints.length lanes.floats.length ty.slotCount)))) ∧
    (∀ lanes : Lanes, lanes.Whole ty.slotCount →
      ∃ values, ty.decodeAll lanes = .ok values ∧
        values.length = lanes.ints.length / ty.slotCount ∧
        ∀ i < lanes.ints.length / ty.slotCount, ∃ value, values[i]? = some value ∧
          ty.decode (lanes.cut (i * ty.slotCount) ty.slotCount) = .ok value) ∧
    (∀ front back : Lanes, front.Whole ty.slotCount → back.Whole ty.slotCount →
      ∃ first second, ty.decodeAll front = .ok first ∧ ty.decodeAll back = .ok second ∧
        ty.decodeAll (front ++ back) = .ok (first ++ second)) ∧
    ∀ values : List Value, (∀ value ∈ values, ty.Conforms value) →
      ∃ runs : List Lanes, values.mapM ty.encode = .ok runs ∧
        runs.mapM ty.decode = .ok (values.map ty.stored) ∧
        ty.decodeAll (.concat runs) = .ok (values.map ty.stored) := by
  refine ⟨fun lanes h => decodeAll_of_not_whole hvalid hfits h, ?_, ?_,
    fun values hconform => decodeAll_encodings hvalid hfits hconform⟩
  · intro lanes hwhole
    obtain ⟨runs, hruns, rfl⟩ := hwhole.exists_runs
    have hcount : (Lanes.concat runs).ints.length / ty.slotCount = runs.length := by
      rw [Lanes.length_ints_concat hruns, Nat.mul_div_cancel _ (slotCount_pos hvalid)]
    refine ⟨_, decodeAll_concat hvalid hfits hruns, by rw [hcount, List.length_map], ?_⟩
    intro i hi
    rw [hcount] at hi
    have hrun : runs[i]? = some runs[i] := List.getElem?_eq_getElem hi
    obtain ⟨hints, hfloats⟩ := hruns _ (List.getElem_mem hi)
    refine ⟨ty.held runs[i], by rw [List.getElem?_map, hrun]; rfl, ?_⟩
    rw [Lanes.cut_concat hruns hrun, decode_eq ty _ hfits hints hfloats]
  · intro front back hfront hback
    obtain ⟨runs, hruns, rfl⟩ := hfront.exists_runs
    obtain ⟨runs', hruns', rfl⟩ := hback.exists_runs
    have hboth : ∀ run ∈ runs ++ runs', run.Spans ty.slotCount :=
      List.forall_mem_append.mpr ⟨hruns, hruns'⟩
    refine ⟨_, _, decodeAll_concat hvalid hfits hruns, decodeAll_concat hvalid hfits hruns', ?_⟩
    rw [← Lanes.concat_append, decodeAll_concat hvalid hfits hboth, List.map_append]

/-- Two elements of three slots, in lanes that do not agree; the same with one slot less; and two
values that are encoded and read back together. -/
theorem decodeAll_elementwise_pairs :
    let ty := struct [("at", vector .f32 2), ("id", scalar .i32)]
    let element (x y n : Int) : Value := .ofEntries
      [("at", .vector [Binary64.ofInt x, Binary64.ofInt y]), ("id", .number (Binary64.ofInt n))]
    let pair : Lanes := ⟨[0, 0, 7, 0, 0, 8], [⟨0x3f800000⟩, ⟨0x40000000⟩, ⟨0⟩, ⟨0⟩, ⟨0⟩, ⟨0⟩]⟩
    let short : Lanes := ⟨pair.ints.tail, pair.floats.tail⟩
    let values := [element 1 2 7, element 3 4 8]
    ty.check = .ok () ∧ ty.slotCount ≤ Size.objectLimit ∧ pair.Whole ty.slotCount ∧
      ¬ short.Whole ty.slotCount ∧ (∀ value ∈ values, ty.Conforms value) ∧
      (∃ elements, ty.decodeAll pair = .ok elements ∧ elements.length = 2 ∧
        (∀ i < 2, ∃ value, elements[i]? = some value ∧ ty.decode (pair.cut (i * 3) 3) = .ok value) ∧
        ty.decodeAll (pair ++ pair) = .ok (elements ++ elements)) ∧
      ty.decodeAll short = .error (.error (.mismatch (.partialElements 5 5 3))) ∧
      ∃ runs, values.mapM ty.encode = .ok runs ∧
        ty.decodeAll (.concat runs) = .ok (values.map ty.stored) := by
  intro ty element pair short values
  have hvalid : ty.check = .ok () := by decide
  have hfits : ty.slotCount ≤ Size.objectLimit := by decide
  have hwhole : pair.Whole ty.slotCount := by decide
  have hshort : ¬ short.Whole ty.slotCount := by decide
  have hconform : ∀ value ∈ values, ty.Conforms value :=
    List.forall_mem_cons.mpr ⟨⟨⟨_, rfl, rfl⟩, ⟨_, rfl, trivial⟩, trivial⟩,
      List.forall_mem_singleton.mpr ⟨⟨_, rfl, rfl⟩, ⟨_, rfl, trivial⟩, trivial⟩⟩
  obtain ⟨hrefused, helements, happend, hencoded⟩ := decodeAll_elementwise hvalid hfits
  obtain ⟨elements, hdecode, hlen, heach⟩ := helements pair hwhole
  have hcount : pair.ints.length / ty.slotCount = 2 := by decide
  rw [hcount] at hlen heach
  obtain ⟨first, second, hfirst, hsecond, hboth⟩ := happend pair pair hwhole hwhole
  obtain ⟨runs, hruns, -, hback⟩ := hencoded values hconform
  rw [hdecode] at hfirst hsecond
  cases hfirst
  cases hsecond
  exact ⟨hvalid, hfits, hwhole, hshort, hconform, ⟨elements, hdecode, hlen, heach, hboth⟩,
    hrefused short hshort, runs, hruns, hback⟩

/-- The slots of a type that cannot be listed are counted before the lanes are compared, so one
integer and one number are not reported as a part of an element. -/
theorem decodeAll_of_unlistable :
    (vector .f32 0x8000000000000000).check = .ok () ∧
      ¬ (⟨[1], [⟨0⟩]⟩ : Lanes).Whole (vector .f32 0x8000000000000000).slotCount ∧
      ∀ cause, (vector .f32 0x8000000000000000).decodeAll ⟨[1], [⟨0⟩]⟩
        ≠ .error (.error (.mismatch cause)) := by
  refine ⟨by decide, by decide, ?_⟩
  intro cause h
  rw [decodeAll, slotTotal_of_lt (by decide)] at h
  cases h

end ElementType

end FieldStore
