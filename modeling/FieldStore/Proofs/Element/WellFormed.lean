/-
What it means for a type to be well-formed.

`ElementType.check` says yes to a type exactly when it could have been put together
without complaint: rows and columns are positive, a struct has properties, no two of
them of one name, and their types are well-formed in turn.  The lemmas below read this
off one constructor at a time, which is the form in which inductions over a type use it.
-/
import FieldStore.Element.Layout
import FieldStore.Element.WellFormed
import FieldStore.Proofs.Machine.Size

namespace FieldStore.ElementType

theorem firstRepeated_eq_none_iff :
    ∀ (names seen : List String),
      firstRepeated seen names = none ↔ names.Nodup ∧ ∀ name ∈ names, name ∉ seen := by
  intro names
  induction names with
  | nil => intro seen; simp [firstRepeated]
  | cons name rest ih =>
      intro seen
      simp only [firstRepeated, List.contains_iff_mem]
      by_cases hseen : name ∈ seen
      · simp [hseen]
      · rw [if_neg hseen, ih, List.nodup_cons]
        constructor
        · intro h
          obtain ⟨hnodup, hout⟩ := h
          refine ⟨⟨fun hmem => hout name hmem List.mem_cons_self, hnodup⟩, ?_⟩
          intro other hmem
          rcases List.mem_cons.mp hmem with rfl | hmem
          · exact hseen
          · exact fun hc => hout other hmem (List.mem_cons_of_mem _ hc)
        · intro h
          obtain ⟨⟨hnot, hnodup⟩, hout⟩ := h
          refine ⟨hnodup, ?_⟩
          intro other hmem hc
          rcases List.mem_cons.mp hc with rfl | hc
          · exact hnot hmem
          · exact hout other (List.mem_cons_of_mem _ hmem) hc

theorem checkNames_eq_ok_iff {names : List String} :
    checkNames names = .ok () ↔ names ≠ [] ∧ names.Nodup := by
  unfold checkNames
  cases names with
  | nil => simp
  | cons name rest =>
      have h := firstRepeated_eq_none_iff (name :: rest) []
      cases hrep : firstRepeated [] (name :: rest) with
      | none =>
          simp only [hrep, true_iff] at h
          simp [h.1]
      | some other =>
          have hrepeats : ¬ (name :: rest).Nodup := fun hnodup => by
            simp [h.mpr ⟨hnodup, by simp⟩] at hrep
          simp only [List.isEmpty_cons, hrepeats, and_false, iff_false]
          simp

theorem check_vector_iff {p : Primitive} {rows : Nat} :
    (vector p rows).check = .ok () ↔ 0 < rows := by
  simp only [check]
  by_cases h : rows = 0 <;> simp [h, Nat.pos_iff_ne_zero]

theorem check_matrix_iff {p : Primitive} {rows cols : Nat} :
    (matrix p rows cols).check = .ok () ↔ 0 < rows ∧ 0 < cols := by
  simp only [check]
  by_cases h : rows = 0 ∨ cols = 0
  · rw [if_pos h]
    simp only [reduceCtorEq, false_iff]
    omega
  · rw [if_neg h]
    simp only [true_iff]
    omega

theorem check_struct_iff {properties : List (String × ElementType)} :
    (struct properties).check = .ok () ↔
      checkProperties properties = .ok () ∧ properties ≠ [] ∧
        (properties.map Prod.fst).Nodup := by
  rw [check, bind_eq_ok]
  simp only [checkNames_eq_ok_iff, ne_eq, List.map_eq_nil_iff]
  constructor
  · intro h
    obtain ⟨⟨⟩, hall, hnames⟩ := h
    exact ⟨hall, hnames⟩
  · intro h
    obtain ⟨hall, hnames⟩ := h
    exact ⟨(), hall, hnames⟩

theorem checkProperties_cons_iff {name : String} {ty : ElementType}
    {rest : List (String × ElementType)} :
    checkProperties ((name, ty) :: rest) = .ok () ↔
      ty.check = .ok () ∧ checkProperties rest = .ok () := by
  rw [checkProperties, bind_eq_ok]
  constructor
  · intro h
    obtain ⟨⟨⟩, h, hrest⟩ := h
    exact ⟨h, hrest⟩
  · intro h
    obtain ⟨h, hrest⟩ := h
    exact ⟨(), h, hrest⟩

theorem validate_eq_ok {ty ty' : ElementType} (h : ty.validate = .ok ty') :
    ty.check = .ok () ∧ ty' = ty := by
  rw [validate] at h
  cases hcheck : ty.check with
  | ok =>
      rw [hcheck] at h
      cases h
      exact ⟨rfl, rfl⟩
  | error cause =>
      rw [hcheck] at h
      cases h

end FieldStore.ElementType
