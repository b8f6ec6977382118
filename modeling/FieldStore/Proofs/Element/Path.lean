/-
Paths of property names into a type.

Following names from struct to struct leads to a type that is nested in another one, and the
offsets of the properties along the way add up to the slot at which it begins.  Name by name the
first property of that name is taken, so no two names need be distinct for this.

`Leads` is the same said as a relation, with the properties before and behind the one that is
taken in view.  Whatever is laid out property after property, the slots of a type, the words of
a value or the entries that are read back, can then be followed along a path by one induction.
-/
import FieldStore.Proofs.Element.Layout
import FieldStore.Proofs.Machine.Window

namespace FieldStore.ElementType

/-- The type that a path of property names leads to. -/
def at? (ty : ElementType) : List String → Option ElementType
  | [] => some ty
  | name :: path => (ty.property? name).bind (·.at? path)

/-- The first slot of the type at a path: the offsets of the properties along it, added up. -/
def start? (ty : ElementType) : List String → Option Nat
  | [] => some 0
  | name :: path =>
      match ty.offsets.lookup name, ty.property? name with
      | some offset, some inner => (inner.start? path).map (offset + ·)
      | _, _ => none

/-! ### Properties in parts -/

theorem propertySlots_append (before after : List (String × ElementType)) :
    propertySlots (before ++ after) = propertySlots before ++ propertySlots after := by
  induction before with
  | nil => rfl
  | cons property before ih =>
      simp only [List.cons_append, propertySlots, ih, List.append_assoc]

theorem propertySlotCount_append (before after : List (String × ElementType)) :
    propertySlotCount (before ++ after) = propertySlotCount before + propertySlotCount after := by
  simp only [← length_propertySlots, propertySlots_append, List.length_append]

theorem offsetsFrom_append (before after : List (String × ElementType)) :
    ∀ start, offsetsFrom start (before ++ after) =
      offsetsFrom start before ++ offsetsFrom (start + propertySlotCount before) after := by
  induction before with
  | nil => intro start; rfl
  | cons property before ih =>
      intro start
      simp only [List.cons_append, offsetsFrom, propertySlotCount, ih, Nat.add_assoc]

theorem map_fst_offsetsFrom (properties : List (String × ElementType)) :
    ∀ start, (offsetsFrom start properties).map Prod.fst = properties.map Prod.fst := by
  induction properties with
  | nil => intro start; rfl
  | cons property rest ih =>
      intro start
      simp only [offsetsFrom, List.map_cons, ih]

/-- A well-formed list of properties is one whose types are. -/
theorem checkProperties_iff {properties : List (String × ElementType)} :
    checkProperties properties = .ok () ↔ ∀ property ∈ properties, property.2.check = .ok () := by
  induction properties with
  | nil => simp [checkProperties]
  | cons property rest ih =>
      rw [checkProperties_cons_iff, List.forall_mem_cons, ih]

/-- A property of a well-formed struct has a well-formed type. -/
theorem check_property {properties : List (String × ElementType)}
    {property : String × ElementType} (hvalid : (struct properties).check = .ok ())
    (hmem : property ∈ properties) : property.2.check = .ok () :=
  checkProperties_iff.mp (check_struct_iff.mp hvalid).1 property hmem

/-- No property of a well-formed struct has the name of one before it. -/
theorem ne_of_behind {before after : List (String × ElementType)} {name : String}
    {next : ElementType} (hvalid : (struct (before ++ (name, next) :: after)).check = .ok ()) :
    ∀ property ∈ after, property.1 ≠ name := by
  obtain ⟨-, -, hnames⟩ := check_struct_iff.mp hvalid
  rw [List.map_append, List.map_cons] at hnames
  obtain ⟨hnot, -⟩ := List.nodup_cons.mp (List.nodup_append.mp hnames).2.1
  intro property hmem heq
  have hname : property.1 ∈ after.map Prod.fst := List.mem_map_of_mem hmem
  exact hnot (heq ▸ hname)

/-! ### One step -/

/-- A property that is found by name stands behind others of other names, and begins where those
end. -/
theorem exists_of_property? {ty inner : ElementType} {name : String}
    (h : ty.property? name = some inner) :
    ∃ before after, ty = struct (before ++ (name, inner) :: after) ∧
      (∀ property ∈ before, property.1 ≠ name) ∧
      ty.offsets.lookup name = some (propertySlotCount before) := by
  cases ty with
  | scalar | vector | matrix => cases h
  | struct properties =>
      obtain ⟨before, after, rfl, hbefore⟩ := List.lookup_eq_some_iff.mp h
      have hne : ∀ property ∈ before, property.1 ≠ name :=
        fun property hmem heq => bne_iff_ne.mp (hbefore property hmem) heq.symm
      refine ⟨before, after, rfl, hne, ?_⟩
      rw [offsets, properties, offsetsFrom_append, offsetsFrom, Nat.zero_add]
      refine List.lookup_eq_some_iff.mpr ⟨_, _, rfl, ?_⟩
      intro entry hmem
      have hname : entry.1 ∈ before.map Prod.fst := by
        rw [← map_fst_offsetsFrom before 0]
        exact List.mem_map_of_mem hmem
      obtain ⟨property, hproperty, heq⟩ := List.mem_map.mp hname
      exact bne_iff_ne.mpr fun hc => hne property hproperty (heq.trans hc.symm)

/-! ### Whole paths -/

/-- The names of a path lead from one type to another, whose slots begin at `start`. -/
inductive Leads : ElementType → List String → Nat → ElementType → Prop
  | here (ty : ElementType) : Leads ty [] 0 ty
  | into {before after : List (String × ElementType)} {name : String} {next target : ElementType}
      {path : List String} {start : Nat} (hbefore : ∀ property ∈ before, property.1 ≠ name)
      (hnext : Leads next path start target) :
      Leads (struct (before ++ (name, next) :: after)) (name :: path)
        (propertySlotCount before + start) target

/-- Every path to a type adds up to a first slot. -/
theorem leads_of_at? : ∀ {path : List String} {ty target : ElementType},
    ty.at? path = some target → ∃ start, ty.start? path = some start ∧ Leads ty path start target := by
  intro path
  induction path with
  | nil =>
      intro ty target h
      cases h
      exact ⟨0, rfl, .here ty⟩
  | cons name path ih =>
      intro ty target h
      obtain ⟨next, hnext, htarget⟩ := Option.bind_eq_some_iff.mp h
      obtain ⟨before, after, rfl, hbefore, hoffset⟩ := exists_of_property? hnext
      obtain ⟨start, hstart, hleads⟩ := ih htarget
      refine ⟨propertySlotCount before + start, ?_, .into hbefore hleads⟩
      simp only [start?, hoffset, hnext, hstart, Option.map_some]

namespace Leads

variable {ty target : ElementType} {path : List String} {start : Nat}

/-- What is nested in a well-formed type is well-formed. -/
theorem check (h : Leads ty path start target) (hvalid : ty.check = .ok ()) :
    target.check = .ok () := by
  induction h with
  | here => exact hvalid
  | into _ _ ih => exact ih (check_property hvalid (List.mem_append_right _ List.mem_cons_self))

/-- The slots of a nested type end no later than those of the type around it. -/
theorem le_slotCount (h : Leads ty path start target) :
    start + target.slotCount ≤ ty.slotCount := by
  induction h with
  | here ty => exact Nat.le_of_eq (Nat.zero_add _)
  | into _ _ ih =>
      rw [slotCount, propertySlotCount_append, propertySlotCount]
      omega

/-- The slots of a nested type are its own slots. -/
theorem window_slots (h : Leads ty path start target) :
    window start target.slotCount ty.slots = target.slots := by
  induction h with
  | here ty => exact window_whole (length_slots ty)
  | @into before after name next target path start _ hnext ih =>
      have houter : window (propertySlotCount before) next.slotCount
          (propertySlots before ++ next.slots ++ propertySlots after) = next.slots :=
        window_append (length_propertySlots before) (length_slots next)
      rw [slots, propertySlots_append, propertySlots, ← List.append_assoc,
        ← window_window hnext.le_slotCount, houter, ih]

end Leads

end FieldStore.ElementType
