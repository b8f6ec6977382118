/-
What `decode` takes from where.

A run with one slot per primitive decodes to the value it holds, for every type and every pair
of lanes: the slice that a struct hands to a property lies within the run and has the length
that the property's type asks for, so no check further down can fail.  A run of any other length
is refused at the top, before anything is looked at.
-/
import FieldStore.Element.Encode
import FieldStore.Proofs.Element.Entries
import FieldStore.Proofs.Element.Layout
import FieldStore.Proofs.Element.Value
import FieldStore.Proofs.Grid.Chunks
import FieldStore.Proofs.Machine.Window

namespace FieldStore.ElementType

/-! ### Runs of the wrong length -/

theorem checkLanes_of_length {ty : ElementType} {lanes : Lanes}
    (hfits : ty.slotCount ≤ Size.objectLimit) (hints : lanes.ints.length = ty.slotCount)
    (hfloats : lanes.floats.length = ty.slotCount) : ty.checkLanes lanes = .ok () := by
  simp only [checkLanes, slotTotal_of_le hfits, hints, hfloats, bind, Except.bind]
  rfl

theorem checkLanes_of_ne {ty : ElementType} {lanes : Lanes}
    (hfits : ty.slotCount ≤ Size.objectLimit)
    (hne : ¬ (lanes.ints.length = ty.slotCount ∧ lanes.floats.length = ty.slotCount)) :
    ty.checkLanes lanes = .error (.error
      (.mismatch (.slotCount ty ty.slotCount lanes.ints.length lanes.floats.length))) := by
  simp only [checkLanes, slotTotal_of_le hfits, hne, if_false, bind, Except.bind]
  rfl

theorem checkLanes_of_lt {ty : ElementType} (lanes : Lanes)
    (hlarge : Size.objectLimit < ty.slotCount) :
    ty.checkLanes lanes = .error (.fault .capacity) := by
  simp only [checkLanes, slotTotal_of_lt hlarge]
  rfl

/-- The check of the lengths comes first, whatever the type. -/
theorem decode_of_checkLanes {ty : ElementType} {lanes : Lanes} {failure : Failure FieldError}
    (h : ty.checkLanes lanes = .error failure) : ty.decode lanes = .error failure := by
  cases ty with
  | scalar p => rw [decode, h]; rfl
  | vector p rows => rw [decode, h]; rfl
  | matrix p rows cols => rw [decode, h]; rfl
  | struct properties => rw [decode, h]; rfl

/-! ### Runs of the right length -/

theorem length_numbers {lanes : Lanes} {n : Nat} (hints : lanes.ints.length = n)
    (hfloats : lanes.floats.length = n) (p : Primitive) : (lanes.numbers p).length = n := by
  cases p with
  | i32 => exact (List.length_map _).trans hints
  | f32 => exact (List.length_map _).trans hfloats

theorem slice_eq_cut {ε : Type} {lanes : Lanes} {start count : Nat}
    (hints : start + count ≤ lanes.ints.length) (hfloats : start + count ≤ lanes.floats.length) :
    (lanes.slice start count : Outcome ε Lanes) = .ok (lanes.cut start count) :=
  if_pos ⟨hints, hfloats⟩

mutual
/-- A run of the right length decodes to the value it holds. -/
theorem decode_eq : ∀ (ty : ElementType) (lanes : Lanes), ty.slotCount ≤ Size.objectLimit →
    lanes.ints.length = ty.slotCount → lanes.floats.length = ty.slotCount →
      ty.decode lanes = .ok (ty.held lanes)
  | scalar p, lanes, hfits, hints, hfloats => by
      have hlen := length_numbers hints hfloats p
      rw [decode, checkLanes_of_length hfits hints hfloats]
      simp only [held, bind, Except.bind]
      cases hnumbers : lanes.numbers p with
      | nil =>
          rw [hnumbers] at hlen
          exact absurd hlen (by simp [slotCount])
      | cons x xs => rfl
  | vector p rows, lanes, hfits, hints, hfloats => by
      rw [decode, checkLanes_of_length hfits hints hfloats]
      rfl
  | matrix p rows cols, lanes, hfits, hints, hfloats => by
      rw [decode, checkLanes_of_length hfits hints hfloats]
      rfl
  | struct properties, lanes, hfits, hints, hfloats => by
      have hall := decodeProperties_eq properties 0 lanes [] hfits
        (by rw [hints, slotCount, Nat.zero_add]) (by rw [hfloats, slotCount, Nat.zero_add])
      rw [decode, checkLanes_of_length hfits hints hfloats]
      simp only [offsets, ElementType.properties, hall, bind, Except.bind]
      rfl

/-- Each property is read from its own slice. -/
theorem decodeProperties_eq : ∀ (properties : List (String × ElementType)) (start : Nat)
    (lanes : Lanes) (entries : Entries Value),
    propertySlotCount properties ≤ Size.objectLimit →
      start + propertySlotCount properties ≤ lanes.ints.length →
      start + propertySlotCount properties ≤ lanes.floats.length →
        decodeProperties properties (offsetsFrom start properties) lanes entries
          = .ok (entries.insertAll (heldEntries properties start lanes))
  | [], _, _, _, _, _, _ => rfl
  | (name, ty) :: rest, start, lanes, entries, hfits, hints, hfloats => by
      rw [propertySlotCount] at hfits hints hfloats
      have hslice : (lanes.slice start ty.slotCount : Outcome FieldError Lanes)
          = .ok (lanes.cut start ty.slotCount) := slice_eq_cut (by omega) (by omega)
      have hvalue := decode_eq ty (lanes.cut start ty.slotCount) (by omega)
        (length_window (by omega)) (length_window (by omega))
      have hrest := decodeProperties_eq rest (start + ty.slotCount) lanes
        (entries.insert name (ty.held (lanes.cut start ty.slotCount)))
        (by omega) (by omega) (by omega)
      rw [offsetsFrom, decodeProperties]
      simp only [hslice, hvalue, bind, Except.bind]
      exact hrest
end

theorem decodeWords_eq {ty : ElementType} {words : List Word}
    (hfits : ty.slotCount ≤ Size.objectLimit) (hlen : words.length = ty.slotCount) :
    ty.decodeWords words = .ok (ty.held (Lanes.ofWords words)) :=
  decode_eq ty (Lanes.ofWords words) hfits hlen (by rw [Lanes.length_floats_ofWords, hlen])

/-! ### Consecutive elements -/

/-- The elements of a run of words are decoded one by one, each from its own window. -/
theorem decodeAll_ofWords {ty : ElementType} {words : List Word} {m : Nat}
    (hpos : 0 < ty.slotCount) (hfits : ty.slotCount ≤ Size.objectLimit)
    (hlen : words.length = m * ty.slotCount) :
    ty.decodeAll (Lanes.ofWords words) =
      ((List.range m).map fun i => window (i * ty.slotCount) ty.slotCount words).mapM
        ty.decodeWords := by
  have hlen' : (words.map Binary32.ofWord).length = m * ty.slotCount := by
    rw [List.length_map, hlen]
  have hzip : (Grid.chunks ty.slotCount (Lanes.ofWords words).ints).zip
      (Grid.chunks ty.slotCount (Lanes.ofWords words).floats) =
        ((List.range m).map fun i => window (i * ty.slotCount) ty.slotCount words).map
          fun element => (element, element.map Binary32.ofWord) := by
    rw [Lanes.ofWords, Grid.chunks_eq_windows hpos hlen, Grid.chunks_eq_windows hpos hlen',
      List.zip_map', List.map_map]
    exact List.map_congr_left fun i _ => by rw [Function.comp_apply, map_window]
  have hwhole : (Lanes.ofWords words).ints.length = (Lanes.ofWords words).floats.length ∧
      (Lanes.ofWords words).ints.length % ty.slotCount = 0 := by
    rw [Lanes.length_floats_ofWords, Lanes.length_ints_ofWords, hlen]
    exact ⟨rfl, Nat.mul_mod_left ..⟩
  simp only [decodeAll, slotTotal_of_le hfits, bind, Except.bind, if_neg (Nat.ne_of_gt hpos),
    if_pos hwhole]
  rw [hzip, List.mapM_map]
  rfl

/-! ### Numbers -/

/-- The numbers of a tensor value that was read off a run are those of the run. -/
theorem tensorNumbers_held : ∀ {ty : ElementType} {p : Primitive} {lanes : Lanes},
    ty.primitive? = some p → ty.check = .ok () → lanes.ints.length = ty.slotCount →
      lanes.floats.length = ty.slotCount →
        ty.tensorNumbers (ty.held lanes) = .ok (lanes.numbers p)
  | scalar p, _, lanes, rfl, _, hints, hfloats => by
      obtain ⟨x, hx⟩ := List.length_eq_one_iff.mp (length_numbers hints hfloats p)
      rw [held, tensorNumbers, hx]
      rfl
  | vector p rows, _, lanes, rfl, _, hints, hfloats =>
      if_pos (length_numbers hints hfloats p)
  | matrix p rows cols, _, lanes, rfl, hvalid, hints, hfloats => by
      obtain ⟨-, hcols⟩ := check_matrix_iff.mp hvalid
      obtain ⟨hlen, hrows, hflat⟩ := Grid.chunks_spec hcols (length_numbers hints hfloats p)
      have hall : ((Grid.chunks cols (lanes.numbers p)).all fun row => row.length == cols)
          = true := by simpa [List.all_eq_true] using hrows
      rw [held, tensorNumbers, if_pos ⟨hlen, hall⟩, hflat]

end FieldStore.ElementType
