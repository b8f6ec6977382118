/-
Which offence an encoding reports.

The places of a type are the type itself and then, property by property in declared order, the
places within.  A value offends at a place when the part of it that stands there has the wrong
form, or when the record that should hold this part lacks the key.  Below an absent or a
misshapen part there is nothing that could offend.

Encoding visits the places in this very order and stops at the first one that offends.  That the
reports and the writes go hand in hand is where the offsets come in: as long as no property has
offended, every run that has been put in had the length that its range asks for.
-/
import FieldStore.Proofs.Element.Encode

namespace FieldStore.ElementType

/-! ### Places -/

/-- A path of property names into a type and the type that it leads to. -/
structure Place where
  path : List String
  type : ElementType

/-- The place that is reached through one more property. -/
def Place.within (name : String) (place : Place) : Place :=
  { place with path := name :: place.path }

mutual
/-- The places of a type in depth-first declared order. -/
def places : ElementType → List Place
  | struct properties => ⟨[], struct properties⟩ :: propertyPlaces properties
  | tensor => [⟨[], tensor⟩]

/-- The places of the properties, one property after the other. -/
def propertyPlaces : List (String × ElementType) → List Place
  | [] => []
  | (name, ty) :: rest => (places ty).map (Place.within name) ++ propertyPlaces rest
end

/-! ### Offences -/

/-- How the form of a value differs from what a type asks for, the entries of a record apart. -/
def misfit : ElementType → Value → Option Mismatch
  | scalar _, .number _ => none
  | vector _ rows, .vector xs =>
      if xs.length = rows then none else some (.vectorRows rows xs.length)
  | matrix _ rows cols, .matrix lines =>
      if lines.length = rows ∧ ∀ line ∈ lines, line.length = cols then none
      else some (.matrixShape rows cols)
  | struct _, .record _ => none
  | struct _, other => some (.notRecord other.kind)
  | tensor, other => some (.notHeld tensor other.kind)

/-- A value is wrong at a place, and what is to be said about it. -/
inductive Offends (value : Value) : Place → FieldError → Prop
  /-- What stands there has the wrong form. -/
  | misfit {place : Place} {part : Value} {cause : Mismatch}
      (hpart : value.at? place.path = some part) (hmisfit : place.type.misfit part = some cause) :
      Offends value place (.mismatch cause)
  /-- The record around it lacks the key. -/
  | missing {path : List String} {name : String} {ty : ElementType} {entries : Entries Value}
      (hrecord : value.at? path = some (.record entries)) (habsent : entries.lookup name = none) :
      Offends value ⟨path ++ [name], ty⟩ (.missingProperty name)

/-- The offence at the end of a path, if there is one. -/
def offenceAt (ty : ElementType) : List String → Value → Option FieldError
  | [], value => (ty.misfit value).map .mismatch
  | name :: path, value =>
      match value.get? name with
      | some part => offenceAt ty path part
      | none =>
          if path = [] ∧ value.kind = .record then some (.missingProperty name) else none

/-- The offence of a value at a place, if there is one. -/
def offence (value : Value) (place : Place) : Option FieldError :=
  place.type.offenceAt place.path value

section

variable {value part : Value} {name : String} {place : Place} {cause : FieldError}

theorem offence_cons (h : value.get? name = some part) (path : List String) (ty : ElementType) :
    offence value ⟨name :: path, ty⟩ = offence part ⟨path, ty⟩ := by
  simp only [offence, offenceAt, h]

theorem offence_within {entries : Entries Value} (h : entries.lookup name = some part)
    (place : Place) : offence (.record entries) (place.within name) = offence part place :=
  have hget : (Value.record entries).get? name = some part := h
  offence_cons hget place.path place.type

theorem offence_of_absent {entries : Entries Value} (h : entries.lookup name = none)
    (ty : ElementType) :
    offence (.record entries) ⟨[name], ty⟩ = some (.missingProperty name) := by
  simp [offence, offenceAt, Value.get?, Value.kind, h]

theorem Offends.within (hpart : value.get? name = some part) (h : Offends part place cause) :
    Offends value (place.within name) cause := by
  have hat : ∀ path, value.at? (name :: path) = part.at? path := by
    intro path
    rw [Value.at?, hpart, Option.bind_some]
  cases h with
  | misfit hthere hmisfit => exact .misfit ((hat _).trans hthere) hmisfit
  | @missing path other ty _ hrecord habsent =>
      have hlonger : Offends value ⟨(name :: path) ++ [other], ty⟩ (.missingProperty other) :=
        .missing ((hat path).trans hrecord) habsent
      exact hlonger

/-- Looking for an offence along a path finds what offends there. -/
theorem offends_of_offence (ty : ElementType) (path : List String) :
    ∀ {value : Value}, offence value ⟨path, ty⟩ = some cause → Offends value ⟨path, ty⟩ cause := by
  induction path with
  | nil =>
      intro value h
      obtain ⟨mismatch, hmisfit, rfl⟩ := Option.map_eq_some_iff.mp h
      exact .misfit rfl hmisfit
  | cons name path ih =>
      intro value h
      cases hget : value.get? name with
      | some part =>
          rw [offence_cons hget] at h
          have hlonger := (ih h).within hget
          exact hlonger
      | none =>
          simp only [offence, offenceAt, hget] at h
          by_cases hkey : path = [] ∧ value.kind = .record
          · obtain ⟨rfl, hkind⟩ := hkey
            cases value with
            | record entries =>
                cases h
                have habsent : Offends _ ⟨[] ++ [name], ty⟩ _ := .missing rfl hget
                exact habsent
            | number | vector | matrix => cases hkind
          · rw [if_neg hkey] at h
            cases h

/-- What offends at the end of a path is found there. -/
theorem offence_of_offends (h : Offends value place cause) : offence value place = some cause := by
  cases h with
  | misfit hpart hmisfit =>
      obtain ⟨path, ty⟩ := place
      induction path generalizing value with
      | nil =>
          cases hpart
          exact congrArg (Option.map FieldError.mismatch) hmisfit
      | cons name path ih =>
          obtain ⟨next, hget, hnext⟩ := Option.bind_eq_some_iff.mp hpart
          rw [offence_cons hget]
          exact ih hnext hmisfit
  | @missing path name ty entries hrecord habsent =>
      induction path generalizing value with
      | nil =>
          cases hrecord
          exact offence_of_absent habsent ty
      | cons first path ih =>
          obtain ⟨next, hget, hnext⟩ := Option.bind_eq_some_iff.mp hrecord
          rw [List.cons_append, offence_cons hget]
          exact ih hnext

theorem offence_eq_some_iff : offence value place = some cause ↔ Offends value place cause :=
  ⟨offends_of_offence place.type place.path, offence_of_offends⟩

end

/-! ### Values that offend nowhere -/

theorem places_of_tensor {ty : ElementType} {p : Primitive} (h : ty.primitive? = some p) :
    ty.places = [⟨[], ty⟩] := by
  cases ty with
  | struct properties => cases h
  | scalar | vector | matrix => simp [places]

theorem root_mem_places (ty : ElementType) : ⟨[], ty⟩ ∈ ty.places := by
  cases ty <;> exact List.mem_cons_self

theorem misfit_eq_none_of_tensor {ty : ElementType} {p : Primitive} {value : Value}
    (hprimitive : ty.primitive? = some p) : ty.misfit value = none ↔ ty.Conforms value := by
  cases ty with
  | struct properties => cases hprimitive
  | scalar | vector | matrix => cases value <;> simp [misfit, Conforms]

mutual
/-- A value conforms to a type if and only if it offends at none of its places. -/
theorem offends_nowhere_iff : ∀ (ty : ElementType) (value : Value),
    (∀ place ∈ ty.places, offence value place = none) ↔ ty.Conforms value
  | scalar p, value => by
      rw [places_of_tensor rfl, List.forall_mem_singleton]
      exact Option.map_eq_none_iff.trans (misfit_eq_none_of_tensor rfl)
  | vector p rows, value => by
      rw [places_of_tensor rfl, List.forall_mem_singleton]
      exact Option.map_eq_none_iff.trans (misfit_eq_none_of_tensor rfl)
  | matrix p rows cols, value => by
      rw [places_of_tensor rfl, List.forall_mem_singleton]
      exact Option.map_eq_none_iff.trans (misfit_eq_none_of_tensor rfl)
  | struct properties, value => by
      rw [places, List.forall_mem_cons]
      cases value with
      | record entries =>
          rw [offends_nowhere_properties_iff properties entries]
          exact and_iff_right rfl
      | number | vector | matrix => simp [offence, offenceAt, misfit, Conforms]

theorem offends_nowhere_properties_iff : ∀ (properties : List (String × ElementType))
    (entries : Entries Value),
    (∀ place ∈ propertyPlaces properties, offence (.record entries) place = none) ↔
      ConformAll properties entries
  | [], entries => by simp [propertyPlaces, ConformAll]
  | (name, ty) :: rest, entries => by
      rw [propertyPlaces, List.forall_mem_append, ConformAll,
        offends_nowhere_properties_iff rest entries, List.forall_mem_map]
      refine and_congr_left fun _ => ?_
      cases hlookup : entries.lookup name with
      | none =>
          simp only [reduceCtorEq, false_and, exists_false, iff_false]
          intro h
          have hroot := h ⟨[], ty⟩ (root_mem_places ty)
          rw [Place.within, offence_of_absent hlookup] at hroot
          cases hroot
      | some part =>
          simp only [offence_within hlookup, Option.some.injEq, exists_eq_left']
          exact offends_nowhere_iff ty part
end

/-! ### The first offence -/

/-- The first offence of a value, in the order of the places. -/
def firstOffence (ty : ElementType) (value : Value) : Option FieldError :=
  ty.places.findSome? (offence value)

theorem firstOffence_eq_none_iff {ty : ElementType} {value : Value} :
    ty.firstOffence value = none ↔ ty.Conforms value := by
  rw [firstOffence, List.findSome?_eq_none_iff]
  exact offends_nowhere_iff ty value

theorem findSome?_within_of_some {entries : Entries Value} {name : String} {ty : ElementType}
    {part : Value} (h : entries.lookup name = some part) :
    ((places ty).map (Place.within name)).findSome? (offence (.record entries))
      = ty.firstOffence part := by
  rw [List.findSome?_map, firstOffence]
  congr 1
  exact funext fun place => offence_within h place

theorem findSome?_within_of_none {entries : Entries Value} {name : String} {ty : ElementType}
    (h : entries.lookup name = none) :
    ((places ty).map (Place.within name)).findSome? (offence (.record entries))
      = some (.missingProperty name) := by
  have hroot : ∃ rest, places ty = ⟨[], ty⟩ :: rest := by cases ty <;> exact ⟨_, rfl⟩
  obtain ⟨rest, hrest⟩ := hroot
  rw [hrest, List.map_cons, List.findSome?_cons, Place.within, offence_of_absent h]

theorem firstOffence_of_tensor {ty : ElementType} {p : Primitive} {value : Value}
    (hprimitive : ty.primitive? = some p) :
    ty.firstOffence value = (ty.misfit value).map .mismatch := by
  rw [firstOffence, places_of_tensor hprimitive, List.findSome?_singleton]
  rfl

/-- A tensor value of the wrong form has no numbers, for the reason that its form gives. -/
theorem tensorNumbers_of_misfit {ty : ElementType} {p : Primitive} {value : Value}
    {cause : Mismatch} (hprimitive : ty.primitive? = some p)
    (hmisfit : ty.misfit value = some cause) :
    ty.tensorNumbers value = .error (.error (.mismatch cause)) := by
  cases ty with
  | struct properties => cases hprimitive
  | scalar p =>
      cases value with
      | number x => cases hmisfit
      | vector | matrix | record => cases hmisfit; rfl
  | vector p rows =>
      cases value with
      | vector xs =>
          obtain ⟨hne, heq⟩ := Option.ite_none_left_eq_some.mp hmisfit
          cases heq
          exact if_neg hne
      | number | matrix | record => cases hmisfit; rfl
  | matrix p rows cols =>
      cases value with
      | matrix lines =>
          obtain ⟨hne, heq⟩ := Option.ite_none_left_eq_some.mp hmisfit
          cases heq
          refine if_neg fun hall => hne ⟨hall.1, ?_⟩
          simpa [List.all_eq_true] using hall.2
      | number | vector | record => cases hmisfit; rfl

theorem encodeTensor_of_offence {ty : ElementType} {p : Primitive} {value : Value}
    {cause : FieldError} (hprimitive : ty.primitive? = some p)
    (hlisted : ty.slotCount ≤ Size.objectLimit) (h : ty.firstOffence value = some cause) :
    encodeTensor p ty value = .error (.error cause) := by
  rw [firstOffence_of_tensor hprimitive] at h
  obtain ⟨mismatch, hmisfit, rfl⟩ := Option.map_eq_some_iff.mp h
  simp only [encodeTensor, slotTotal_of_le hlisted, tensorNumbers_of_misfit hprimitive hmisfit,
    bind, Except.bind]

/-- Putting in a run for which there is room keeps the lengths of both lanes. -/
theorem splice_of_room {ε : Type} {lanes : Lanes} {start : Nat} {words : List Word}
    (hints : start + words.length ≤ lanes.ints.length)
    (hfloats : start + words.length ≤ lanes.floats.length) :
    ∃ lanes' : Lanes, (lanes.splice start (Lanes.ofWords words) : Outcome ε Lanes) = .ok lanes' ∧
      lanes'.ints.length = lanes.ints.length ∧ lanes'.floats.length = lanes.floats.length := by
  have hpatch : (Lanes.ofWords words).floats.length = words.length := Lanes.length_floats_ofWords _
  refine ⟨_, if_pos ⟨hpatch, hints, hfloats⟩, length_overwrite hints, length_overwrite ?_⟩
  rw [hpatch]
  exact hfloats

mutual
/-- The first offence is what an encoding reports. -/
theorem encode_of_offence : ∀ (ty : ElementType) (value : Value) (cause : FieldError),
    ty.slotCount ≤ Size.objectLimit → ty.firstOffence value = some cause →
      ty.encode value = .error (.error cause)
  | scalar p, value, cause, hlisted, h => by
      rw [encode]
      exact encodeTensor_of_offence rfl hlisted h
  | vector p rows, value, cause, hlisted, h => by
      rw [encode]
      exact encodeTensor_of_offence rfl hlisted h
  | matrix p rows cols, value, cause, hlisted, h => by
      rw [encode]
      exact encodeTensor_of_offence rfl hlisted h
  | struct properties, value, cause, hlisted, h => by
      rw [firstOffence, places, List.findSome?_cons] at h
      rw [encode, slotTotal_of_le hlisted]
      cases value with
      | record entries =>
          have hroom : 0 + propertySlotCount properties ≤ (struct properties).slotCount :=
            Nat.le_of_eq (Nat.zero_add _)
          refine encodeProperties_of_offence properties 0 entries _ cause hlisted ?_ ?_ h
          · rw [Lanes.zeros, Lanes.length_ints_ofWords, List.length_replicate]
            exact hroom
          · rw [Lanes.zeros, Lanes.length_floats_ofWords, List.length_replicate]
            exact hroom
      | number | vector | matrix => cases h; rfl

/-- The same for the properties, into a run with room for all of them. -/
theorem encodeProperties_of_offence : ∀ (properties : List (String × ElementType)) (start : Nat)
    (entries : Entries Value) (lanes : Lanes) (cause : FieldError),
    propertySlotCount properties ≤ Size.objectLimit →
      start + propertySlotCount properties ≤ lanes.ints.length →
      start + propertySlotCount properties ≤ lanes.floats.length →
      (propertyPlaces properties).findSome? (offence (.record entries)) = some cause →
        encodeProperties properties (offsetsFrom start properties) entries lanes
          = .error (.error cause)
  | [], _, _, _, _, _, _, _, h => by cases h
  | (name, ty) :: rest, start, entries, lanes, cause, hlisted, hints, hfloats, h => by
      rw [propertySlotCount] at hlisted hints hfloats
      rw [propertyPlaces, List.findSome?_append] at h
      rw [offsetsFrom, encodeProperties]
      cases hlookup : entries.lookup name with
      | none =>
          rw [findSome?_within_of_none hlookup] at h
          cases h
          rfl
      | some part =>
          rw [findSome?_within_of_some hlookup] at h
          cases hpart : ty.firstOffence part with
          | some first =>
              rw [hpart] at h
              cases h
              simp only [encode_of_offence ty part cause (by omega) hpart, bind, Except.bind]
          | none =>
              have hconforms := firstOffence_eq_none_iff.mp hpart
              have hlen := length_words ty part hconforms
              obtain ⟨lanes', hsplice, hints', hfloats'⟩ : ∃ lanes' : Lanes,
                  (lanes.splice start (Lanes.ofWords (ty.words part)) : Outcome FieldError Lanes)
                    = .ok lanes' ∧ lanes'.ints.length = lanes.ints.length ∧
                      lanes'.floats.length = lanes.floats.length :=
                splice_of_room (by omega) (by omega)
              rw [hpart, Option.none_or] at h
              simp only [encode_eq ty part (by omega) hconforms, hsplice, bind, Except.bind]
              exact encodeProperties_of_offence rest (start + ty.slotCount) entries lanes' cause
                (by omega) (by omega) (by omega) h
end

/-- **An encoding succeeds exactly for the values that conform, and otherwise reports the first
offence.**  The first place at which the value offends is found in depth-first declared order;
what is reported is that the form of the part that stands there does not fit, or that the record
around it lacks the key.  No other error arises and no write is out of bounds. -/
theorem encode_reports_first_offence {ty : ElementType} (hlisted : ty.slotCount ≤ Size.objectLimit)
    (value : Value) :
    ((∃ lanes, ty.encode value = .ok lanes) ↔ ty.Conforms value) ∧
    (¬ ty.Conforms value → ∃ before place after cause,
      ty.places = before ++ place :: after ∧
      (∀ earlier ∈ before, ∀ other, ¬ Offends value earlier other) ∧
      Offends value place cause ∧ ty.encode value = .error (.error cause)) ∧
    (∀ use, ty.encode value ≠ .error (.error (.tensorOnly use))) ∧
    ∀ reason, ty.encode value ≠ .error (.fault reason) := by
  cases hfirst : ty.firstOffence value with
  | none =>
      have hconforms := firstOffence_eq_none_iff.mp hfirst
      have hencode := encode_eq ty value hlisted hconforms
      refine ⟨iff_of_true ⟨_, hencode⟩ hconforms, fun hnot => absurd hconforms hnot, ?_, ?_⟩
      · intro use h
        cases hencode.symm.trans h
      · intro reason h
        cases hencode.symm.trans h
  | some cause =>
      have hnot : ¬ ty.Conforms value := fun hconforms => by
        rw [firstOffence_eq_none_iff.mpr hconforms] at hfirst
        cases hfirst
      have hencode := encode_of_offence ty value cause hlisted hfirst
      obtain ⟨before, place, after, hsplit, hplace, hbefore⟩ :=
        List.findSome?_eq_some_iff.mp hfirst
      have hoffends := offence_eq_some_iff.mp hplace
      refine ⟨iff_of_false ?_ hnot, fun _ => ⟨before, place, after, cause, hsplit, ?_, hoffends,
        hencode⟩, ?_, ?_⟩
      · rintro ⟨lanes, h⟩
        cases hencode.symm.trans h
      · intro earlier hmem other hother
        cases (offence_eq_some_iff.mpr hother).symm.trans (hbefore earlier hmem)
      · intro use h
        cases hencode.symm.trans h
        cases hoffends
      · intro reason h
        cases hencode.symm.trans h

/-- Of three offences, an absent key, a part of the wrong form behind it and a vector that is too
short, the absent key comes first. -/
theorem encode_reports_first_offence_nested :
    let inner := struct [("x", scalar .f32), ("y", vector .i32 2)]
    let ty := struct [("a", inner), ("b", vector .f32 3)]
    let value := Value.record [("a", .record [("y", .number ⟨0⟩)]), ("b", .vector [])]
    ty.slotCount ≤ Size.objectLimit ∧ ¬ ty.Conforms value ∧
      Offends value ⟨["a", "y"], vector .i32 2⟩ (.mismatch (.notHeld (vector .i32 2) .number)) ∧
      Offends value ⟨["b"], vector .f32 3⟩ (.mismatch (.vectorRows 3 0)) ∧
      ty.encode value = .error (.error (.missingProperty "x")) ∧
      ∃ before place after, ty.places = before ++ place :: after ∧
        (∀ earlier ∈ before, ∀ other, ¬ Offends value earlier other) ∧
        Offends value place (.missingProperty "x") := by
  intro inner ty value
  have hlisted : ty.slotCount ≤ Size.objectLimit := by decide
  have hencode : ty.encode value = .error (.error (.missingProperty "x")) := by decide
  obtain ⟨hiff, hfirst, -⟩ := encode_reports_first_offence hlisted value
  have hnot : ¬ ty.Conforms value := fun hconforms => by
    obtain ⟨lanes, hlanes⟩ := hiff.mpr hconforms
    cases hencode.symm.trans hlanes
  obtain ⟨before, place, after, cause, hsplit, hbefore, hoffends, hreport⟩ := hfirst hnot
  cases hencode.symm.trans hreport
  exact ⟨hlisted, hnot, .misfit rfl rfl, .misfit rfl rfl, hencode, before, place, after, hsplit,
    hbefore, hoffends⟩

/-- A value of the wrong form is not reported as such where the slots of the type fit no object:
the run of zeros for them cannot be made. -/
theorem encode_of_unlistable :
    (vector .f32 0x8000000000000000).check = .ok () ∧
      ¬ (vector .f32 0x8000000000000000).Conforms (.number ⟨0⟩) ∧
      ∀ cause, (vector .f32 0x8000000000000000).encode (.number ⟨0⟩)
        ≠ .error (.error (.mismatch cause)) := by
  refine ⟨by decide, fun h => h, ?_⟩
  intro cause h
  rw [encode, encodeTensor, slotTotal_of_lt (by decide)] at h
  cases h

end FieldStore.ElementType
