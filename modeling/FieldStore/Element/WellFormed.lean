/-
Which element types a field may have.

`check` looks at a type from the inside out: the properties of a struct in declared order, and
only then the struct itself.  The first offence found in this order is the one reported.
-/
import FieldStore.Error

namespace FieldStore.ElementType

/-- The first name that already stands in `seen` or earlier in the list. -/
def firstRepeated (seen : List String) : List String → Option String
  | [] => none
  | name :: rest =>
      if seen.contains name then some name else firstRepeated (name :: seen) rest

/-- What is wrong with a list of property names. -/
def checkNames (names : List String) : Except Malformed Unit :=
  if names.isEmpty then .error .noProperties
  else
    match firstRepeated [] names with
    | some name => .error (.duplicateProperty name)
    | none => .ok ()

mutual
/-- The first offence in a type, inner types before outer ones. -/
def check : ElementType → Except Malformed Unit
  | scalar _ => .ok ()
  | vector _ rows => if rows = 0 then .error .noRows else .ok ()
  | matrix _ rows cols => if rows = 0 ∨ cols = 0 then .error (.emptyMatrix rows cols) else .ok ()
  | struct properties => do
      checkProperties properties
      checkNames (properties.map Prod.fst)

/-- The first offence in the types of the properties. -/
def checkProperties : List (String × ElementType) → Except Malformed Unit
  | [] => .ok ()
  | (_, ty) :: rest => do
      check ty
      checkProperties rest
end

/-- The type itself, if a field may have it. -/
def validate (ty : ElementType) : Outcome FieldError ElementType :=
  match ty.check with
  | .ok () => .ok ty
  | .error cause => .error (.error (.malformed (.elementType cause)))

end FieldStore.ElementType
