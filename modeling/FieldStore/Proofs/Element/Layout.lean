/-
Slots are counted as they are listed.

`slotCount` never lists anything and `slots` never counts; that the two agree is what ties the
size of a field to the words that lie in it.  A well-formed type has at least one slot, since
rows and columns are positive and a struct has a property to start with.
-/
import FieldStore.Proofs.Element.WellFormed

namespace FieldStore.ElementType

mutual
theorem length_slots : ∀ ty : ElementType, ty.slots.length = ty.slotCount
  | scalar _ => rfl
  | vector _ _ => List.length_replicate
  | matrix _ _ _ => List.length_replicate
  | struct properties => length_propertySlots properties

theorem length_propertySlots : ∀ properties : List (String × ElementType),
    (propertySlots properties).length = propertySlotCount properties
  | [] => rfl
  | (name, ty) :: rest => by
      rw [propertySlots, propertySlotCount, List.length_append, length_slots ty,
        length_propertySlots rest]
end

mutual
/-- A type that a field may have takes up room. -/
theorem slotCount_pos : ∀ {ty : ElementType}, ty.check = .ok () → 0 < ty.slotCount
  | scalar _, _ => Nat.zero_lt_one
  | vector _ _, h => check_vector_iff.mp h
  | matrix _ _ _, h => by
      obtain ⟨hrows, hcols⟩ := check_matrix_iff.mp h
      exact Nat.mul_pos hrows hcols
  | struct properties, h => by
      obtain ⟨hall, hne, -⟩ := check_struct_iff.mp h
      exact propertySlotCount_pos hall hne

theorem propertySlotCount_pos : ∀ {properties : List (String × ElementType)},
    checkProperties properties = .ok () → properties ≠ [] → 0 < propertySlotCount properties
  | [], _, hne => absurd rfl hne
  | (name, ty) :: rest, h, _ => by
      have hty := slotCount_pos (checkProperties_cons_iff.mp h).1
      simp only [propertySlotCount]
      omega
end

variable {ε : Type}

theorem slotTotal_eq_ok_iff {ty : ElementType} {n : Nat} :
    (ty.slotTotal : Outcome ε Nat) = .ok n ↔
      n = ty.slotCount ∧ ty.slotCount ≤ Size.objectLimit := by
  unfold slotTotal
  rw [bind_eq_ok]
  simp only [Size.reserve_eq_ok_iff, slotWidth, Nat.one_mul]
  constructor
  · intro h
    obtain ⟨⟨⟩, hle, heq⟩ := h
    cases heq
    exact ⟨rfl, hle⟩
  · intro h
    obtain ⟨rfl, hle⟩ := h
    exact ⟨(), hle, rfl⟩

theorem slotTotal_of_le {ty : ElementType} (h : ty.slotCount ≤ Size.objectLimit) :
    (ty.slotTotal : Outcome ε Nat) = .ok ty.slotCount :=
  slotTotal_eq_ok_iff.mpr ⟨rfl, h⟩

theorem slotTotal_of_lt {ty : ElementType} (h : Size.objectLimit < ty.slotCount) :
    (ty.slotTotal : Outcome ε Nat) = .error (.fault .capacity) := by
  have hno : ¬ slotWidth * ty.slotCount ≤ Size.objectLimit := by
    simp only [slotWidth]
    omega
  simp only [slotTotal, Size.reserve, hno, if_false]
  rfl

theorem byteSize_eq_ok {ty : ElementType} {n : Nat} (h : (ty.byteSize : Outcome ε Nat) = .ok n) :
    n = ty.slotCount * wordBytes ∧ ty.slotCount ≤ Size.objectLimit := by
  rw [byteSize, bind_eq_ok] at h
  obtain ⟨total, htotal, h⟩ := h
  obtain ⟨rfl, hfits⟩ := slotTotal_eq_ok_iff.mp htotal
  cases h
  exact ⟨rfl, hfits⟩

end FieldStore.ElementType
