/-
What `encode` puts where.

The encoding of a conforming value is its words in both lanes.  A tensor is converted in one
piece.  For a struct the induction is on the properties still to be written: the run under
construction is then the words of the properties already written, followed by zeros for those
to come, and the offset of the next property is the length of the first part.
-/
import FieldStore.Proofs.Element.Layout
import FieldStore.Proofs.Element.Value
import FieldStore.Proofs.Grid.Chunks
import FieldStore.Proofs.Machine.Window

namespace FieldStore.ElementType

mutual
theorem length_words : ∀ (ty : ElementType) (value : Value), ty.Conforms value →
    (ty.words value).length = ty.slotCount
  | scalar _, .number _, _ => rfl
  | vector _ _, .vector _, h => (List.length_map _).trans h
  | matrix _ _ _, .matrix _, h => by
      rw [words, List.length_map, Grid.length_flatten h.2, h.1, slotCount]
  | struct properties, .record entries, h => length_propertyWords properties entries h

theorem length_propertyWords : ∀ (properties : List (String × ElementType))
    (entries : Entries Value), ConformAll properties entries →
      (propertyWords properties entries).length = propertySlotCount properties
  | [], _, _ => rfl
  | (name, ty) :: rest, entries, h => by
      obtain ⟨⟨value, hlookup, hvalue⟩, hrest⟩ := h
      rw [propertyWords, hlookup, List.length_append, length_propertyWords rest entries hrest,
        propertySlotCount]
      exact congrArg (· + _) (length_words ty value hvalue)
end

/-! ### Tensors -/

/-- A tensor value of the right number of numbers is converted number by number. -/
theorem encodeTensor_eq {p : Primitive} {ty : ElementType} {value : Value}
    {numbers : List Binary64} (hfits : ty.slotCount ≤ Size.objectLimit)
    (hnumbers : ty.tensorNumbers value = .ok numbers) (hlen : numbers.length = ty.slotCount) :
    encodeTensor p ty value = .ok (Lanes.ofWords (numbers.map p.toWord)) := by
  have hput : overwrite 0 (numbers.map p.toWord) (List.replicate ty.slotCount 0)
      = numbers.map p.toWord := by simp [overwrite, hlen]
  simp only [encodeTensor, slotTotal_of_le hfits, hnumbers, bind, Except.bind]
  rw [Lanes.zeros, Lanes.splice_ofWords (by simp [hlen]), hput]

/-- The words of a tensor value are its numbers, converted. -/
theorem tensorNumbers_eq : ∀ {ty : ElementType} {p : Primitive} {value : Value},
    ty.primitive? = some p → ty.Conforms value →
      ∃ numbers, ty.tensorNumbers value = .ok numbers ∧ ty.words value = numbers.map p.toWord
  | scalar _, _, .number x, rfl, _ => ⟨[x], rfl, rfl⟩
  | vector _ _, _, .vector xs, rfl, h => ⟨xs, if_pos h, rfl⟩
  | matrix _ _ cols, _, .matrix lines, rfl, h => by
      have hall : (lines.all fun line => line.length == cols) = true := by
        simpa [List.all_eq_true] using h.2
      exact ⟨lines.flatten, if_pos ⟨h.1, hall⟩, rfl⟩

/-- The same of a list of values. -/
theorem mapM_tensorNumbers {ty : ElementType} {p : Primitive}
    (hprimitive : ty.primitive? = some p) :
    ∀ {values : List Value}, (∀ value ∈ values, ty.Conforms value) →
      ∃ rows, values.mapM ty.tensorNumbers = .ok rows ∧
        rows.flatten.map p.toWord = values.flatMap ty.words := by
  intro values
  induction values with
  | nil => intro _; exact ⟨[], rfl, rfl⟩
  | cons value values ih =>
      intro h
      obtain ⟨numbers, hnumbers, hwords⟩ := tensorNumbers_eq hprimitive (h value List.mem_cons_self)
      obtain ⟨rows, hrows, hrest⟩ := ih fun other hmem => h other (List.mem_cons_of_mem _ hmem)
      refine ⟨numbers :: rows, ?_, ?_⟩
      · rw [List.mapM_cons, hnumbers, hrows]
        rfl
      · rw [List.flatten_cons, List.map_append, hrest, List.flatMap_cons, hwords]

/-! ### All types -/

/-- Writing a property's words over the zeros that are next in turn. -/
theorem overwrite_zeros {front patch : List Word} {n rest : Nat} (hn : patch.length = n) :
    overwrite front.length patch (front ++ List.replicate (n + rest) 0)
      = front ++ patch ++ List.replicate rest 0 := by
  rw [← List.replicate_append_replicate, ← List.append_assoc]
  exact overwrite_append rfl (by simp [hn])

mutual
/-- A conforming value is encoded as its words. -/
theorem encode_eq : ∀ (ty : ElementType) (value : Value), ty.slotCount ≤ Size.objectLimit →
    ty.Conforms value → ty.encode value = .ok (Lanes.ofWords (ty.words value))
  | scalar p, .number x, hfits, _ => by
      rw [encode, encodeTensor_eq hfits rfl rfl]
      rfl
  | vector p rows, .vector xs, hfits, h => by
      have hnumbers : (vector p rows).tensorNumbers (.vector xs) = .ok xs := if_pos h
      rw [encode, encodeTensor_eq hfits hnumbers h]
      rfl
  | matrix p rows cols, .matrix lines, hfits, h => by
      have hall : (lines.all fun line => line.length == cols) = true := by
        simpa [List.all_eq_true] using h.2
      have hnumbers : (matrix p rows cols).tensorNumbers (.matrix lines) = .ok lines.flatten :=
        if_pos ⟨h.1, hall⟩
      have hlen : lines.flatten.length = rows * cols := by rw [Grid.length_flatten h.2, h.1]
      rw [encode, encodeTensor_eq hfits hnumbers hlen]
      rfl
  | struct properties, .record entries, hfits, h => by
      have hall := encodeProperties_eq properties entries [] hfits h
      simp only [encode, slotTotal_of_le hfits, bind, Except.bind]
      exact hall

/-- The properties are written one behind the other, each over its own zeros. -/
theorem encodeProperties_eq : ∀ (properties : List (String × ElementType))
    (entries : Entries Value) (front : List Word),
    propertySlotCount properties ≤ Size.objectLimit → ConformAll properties entries →
      encodeProperties properties (offsetsFrom front.length properties) entries
          (Lanes.ofWords (front ++ List.replicate (propertySlotCount properties) 0))
        = .ok (Lanes.ofWords (front ++ propertyWords properties entries))
  | [], _, _, _, _ => by simp [encodeProperties, propertyWords, propertySlotCount]
  | (name, ty) :: rest, entries, front, hfits, h => by
      obtain ⟨⟨value, hlookup, hvalue⟩, hrest⟩ := h
      have hlen := length_words ty value hvalue
      rw [propertySlotCount] at hfits
      have hnested := encode_eq ty value (by omega) hvalue
      have htail := encodeProperties_eq rest entries (front ++ ty.words value) (by omega) hrest
      rw [List.length_append, hlen] at htail
      rw [offsetsFrom, encodeProperties, hlookup]
      simp only [hnested, bind, Except.bind]
      rw [Lanes.splice_ofWords (by simp [hlen, propertySlotCount]), propertySlotCount,
        overwrite_zeros hlen]
      refine htail.trans ?_
      rw [propertyWords, hlookup, List.append_assoc]
      rfl
end

theorem encodeWords_eq {ty : ElementType} {value : Value} (hfits : ty.slotCount ≤ Size.objectLimit)
    (h : ty.Conforms value) : ty.encodeWords value = .ok (ty.words value) := by
  simp only [encodeWords, encode_eq ty value hfits h, bind, Except.bind]
  rfl

/-! ### The length of an encoding

Splicing keeps the length of a run, so an encoding that succeeds has one word per slot, whether
or not anything is known of the value. -/

theorem length_of_splice {ε : Type} {lanes patch lanes' : Lanes} {start : Nat}
    (h : (lanes.splice start patch : Outcome ε Lanes) = .ok lanes') :
    lanes'.ints.length = lanes.ints.length := by
  unfold Lanes.splice at h
  by_cases hbounds : patch.floats.length = patch.ints.length ∧
      start + patch.ints.length ≤ lanes.ints.length ∧
      start + patch.ints.length ≤ lanes.floats.length
  · rw [if_pos hbounds] at h
    cases h
    exact length_overwrite hbounds.2.1
  · rw [if_neg hbounds] at h
    cases h

theorem length_of_encodeTensor {p : Primitive} {ty : ElementType} {value : Value} {lanes : Lanes}
    (h : encodeTensor p ty value = .ok lanes) : lanes.ints.length = ty.slotCount := by
  rw [encodeTensor, bind_eq_ok] at h
  obtain ⟨total, htotal, h⟩ := h
  rw [bind_eq_ok] at h
  obtain ⟨numbers, -, h⟩ := h
  rw [length_of_splice h, (slotTotal_eq_ok_iff.mp htotal).1]
  exact List.length_replicate

theorem length_of_encodeProperties :
    ∀ {properties : List (String × ElementType)} {offsets : List (String × Nat)}
      {entries : Entries Value} {lanes lanes' : Lanes},
      encodeProperties properties offsets entries lanes = .ok lanes' →
        lanes'.ints.length = lanes.ints.length := by
  intro properties
  induction properties with
  | nil =>
      intro offsets entries lanes lanes' h
      cases h
      rfl
  | cons property properties ih =>
      intro offsets entries lanes lanes' h
      obtain ⟨name, ty⟩ := property
      cases offsets with
      | nil =>
          cases h
          rfl
      | cons offset offsets =>
          rw [encodeProperties] at h
          cases hlookup : entries.lookup name with
          | none =>
              rw [hlookup] at h
              cases h
          | some value =>
              simp only [hlookup, bind_eq_ok] at h
              obtain ⟨nested, -, spliced, hspliced, h⟩ := h
              rw [ih h, length_of_splice hspliced]

theorem length_of_encode {ty : ElementType} {value : Value} {lanes : Lanes}
    (h : ty.encode value = .ok lanes) : lanes.ints.length = ty.slotCount := by
  cases ty with
  | scalar p =>
      rw [encode] at h
      exact length_of_encodeTensor h
  | vector p rows =>
      rw [encode] at h
      exact length_of_encodeTensor h
  | matrix p rows cols =>
      rw [encode] at h
      exact length_of_encodeTensor h
  | struct properties =>
      rw [encode, bind_eq_ok] at h
      obtain ⟨total, htotal, h⟩ := h
      cases value with
      | record entries =>
          rw [length_of_encodeProperties h, (slotTotal_eq_ok_iff.mp htotal).1]
          exact List.length_replicate
      | number | vector | matrix => cases h

theorem length_of_encodeWords {ty : ElementType} {value : Value} {words : List Word}
    (h : ty.encodeWords value = .ok words) : words.length = ty.slotCount := by
  rw [encodeWords, bind_eq_ok] at h
  obtain ⟨lanes, hlanes, h⟩ := h
  cases h
  exact length_of_encode hlanes

end FieldStore.ElementType
