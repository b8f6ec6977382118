/-
Element types: what one element of a field looks like.

A tensor type is a scalar, a vector or a matrix over one primitive kind; a struct lists named
properties, in an order that is part of the type, and nests freely.  The inductive type below
also admits what no field may have, a vector without rows or a struct that names a property
twice.  `Malformed` lists these cases, and `FieldStore.Element.WellFormed` decides them.

`Handle` is a type together with the identity of the descriptor that holds it.  Two handles on
one descriptor share it; two descriptors built apart never do, however alike their types.
-/

namespace FieldStore

/-- What one slot of device memory holds. -/
inductive Primitive
  | i32
  | f32
  deriving DecidableEq, Repr

/-- The name of a primitive kind, as it stands in the text of a type. -/
def Primitive.text : Primitive → String
  | .i32 => "I32"
  | .f32 => "F32"

/-- The type of one element. -/
inductive ElementType
  | scalar (primitive : Primitive)
  | vector (primitive : Primitive) (rows : Nat)
  | matrix (primitive : Primitive) (rows cols : Nat)
  | struct (properties : List (String × ElementType))
  deriving Inhabited

namespace ElementType

/-- The four forms that a type can take. -/
inductive Category
  | scalar
  | vector
  | matrix
  | struct
  deriving DecidableEq, Repr

/-- The name of a category. -/
def Category.text : Category → String
  | .scalar => "Scalar"
  | .vector => "Vector"
  | .matrix => "Matrix"
  | .struct => "Struct"

/-- The form of a type. -/
def category : ElementType → Category
  | scalar _ => .scalar
  | vector _ _ => .vector
  | matrix _ _ _ => .matrix
  | struct _ => .struct

/-- Whether all slots share one primitive kind by construction. -/
def isTensor (ty : ElementType) : Bool := ty.category != .struct

/-- The primitive kind of a tensor type. -/
def primitive? : ElementType → Option Primitive
  | scalar p | vector p _ | matrix p _ _ => some p
  | struct _ => none

/-- The number of rows of a tensor type; a scalar has one. -/
def rows? : ElementType → Option Nat
  | scalar _ => some 1
  | vector _ rows | matrix _ rows _ => some rows
  | struct _ => none

/-- The number of columns of a tensor type; scalars and vectors have one. -/
def cols? : ElementType → Option Nat
  | scalar _ | vector _ _ => some 1
  | matrix _ _ cols => some cols
  | struct _ => none

/-- The properties of a struct in declared order, and none for a tensor type. -/
def properties : ElementType → List (String × ElementType)
  | struct properties => properties
  | _ => []

/-- The type of the first property of that name. -/
def property? (ty : ElementType) (name : String) : Option ElementType :=
  ty.properties.lookup name

/-! ### Equality -/

mutual
/-- Whether two types are equal, properties being compared in order. -/
def same : ElementType → ElementType → Bool
  | scalar p, scalar q => p == q
  | vector p m, vector q n => p == q && m == n
  | matrix p m k, matrix q n l => p == q && m == n && k == l
  | struct ps, struct qs => sameProperties ps qs
  | _, _ => false

/-- Whether two property lists are equal. -/
def sameProperties : List (String × ElementType) → List (String × ElementType) → Bool
  | [], [] => true
  | (m, s) :: ps, (n, t) :: qs => m == n && same s t && sameProperties ps qs
  | _, _ => false
end

mutual
theorem same_iff : ∀ s t : ElementType, same s t = true ↔ s = t
  | scalar p, t => by cases t <;> simp [same]
  | vector p m, t => by cases t <;> simp [same]
  | matrix p m k, t => by cases t <;> simp [same, and_assoc]
  | struct ps, t => by cases t <;> simp [same, sameProperties_iff ps]

theorem sameProperties_iff :
    ∀ ps qs : List (String × ElementType), sameProperties ps qs = true ↔ ps = qs
  | [], qs => by cases qs <;> simp [sameProperties]
  | (m, s) :: ps, qs => by
      cases qs with
      | nil => simp [sameProperties]
      | cons q qs =>
          obtain ⟨n, t⟩ := q
          simp [sameProperties, same_iff s t, sameProperties_iff ps qs]
end

instance : DecidableEq ElementType := fun s t =>
  decidable_of_iff (same s t = true) (same_iff s t)

/-! ### Descriptors -/

/-- A type and the identity of the descriptor that holds it. -/
structure Handle where
  descriptor : Nat
  type : ElementType

/-- Whether two handles share one descriptor. -/
def Handle.sharesDescriptor (a b : Handle) : Bool := a.descriptor == b.descriptor

/-- Whether two handles denote equal types.  Sharing a descriptor settles it at once. -/
def Handle.equal (a b : Handle) : Bool := a.sharesDescriptor b || same a.type b.type

/-! ### Malformed types -/

/-- Why no field may have a type. -/
inductive Malformed
  /-- A vector without rows. -/
  | noRows
  /-- A matrix one of whose dimensions is zero. -/
  | emptyMatrix (rows cols : Nat)
  /-- A struct without properties. -/
  | noProperties
  /-- A struct that names a property again. -/
  | duplicateProperty (name : String)
  deriving DecidableEq

/-- What is wrong with the type, in words. -/
def Malformed.text : Malformed → String
  | noRows => "vector must have at least one row"
  | emptyMatrix rows cols => s!"matrix dimensions must be positive, got {rows}x{cols}"
  | noProperties => "struct must declare at least one property"
  | duplicateProperty name => s!"duplicate struct property '{name}'"

end ElementType

end FieldStore
