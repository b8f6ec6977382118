/-
Host values: what the caller of the library holds in place of device words.

Numbers are 64-bit floating-point throughout.  A record keeps its entries in ascending order of
their keys, which makes two records with the same entries the same record however they were
put together; `Entries.insert` is the one way in which the library adds an entry, and a later
value under a key replaces an earlier one.  Keys are ordered by code points.
-/
import FieldStore.Machine.Binary

namespace FieldStore

/-- A list of named entries. -/
abbrev Entries (α : Type) : Type := List (String × α)

namespace Entries

variable {α : Type}

/-- The entries with `value` under `key`, in ascending order of keys if they were. -/
def insert (key : String) (value : α) : Entries α → Entries α
  | [] => [(key, value)]
  | (k, v) :: rest =>
      if key < k then (key, value) :: (k, v) :: rest
      else if key = k then (key, value) :: rest
      else (k, v) :: insert key value rest

/-- The entries of a list in ascending order of keys, the last value under each key. -/
def ofList (entries : List (String × α)) : Entries α :=
  entries.foldl (fun sorted entry => sorted.insert entry.1 entry.2) []

end Entries

/-- A host-side value of one element. -/
inductive Value
  | number (x : Binary64)
  | vector (xs : List Binary64)
  | matrix (rows : List (List Binary64))
  | record (entries : List (String × Value))
  deriving Inhabited

namespace Value

/-- The four forms that a value can take. -/
inductive Kind
  | number
  | vector
  | matrix
  | record
  deriving DecidableEq, Repr

/-- The name of a form. -/
def Kind.text : Kind → String
  | .number => "number"
  | .vector => "vector"
  | .matrix => "matrix"
  | .record => "record"

/-- The form of a value. -/
def kind : Value → Kind
  | number _ => .number
  | vector _ => .vector
  | matrix _ => .matrix
  | record _ => .record

/-- The number that a value is, if it is one. -/
def number? : Value → Option Binary64
  | number x => some x
  | _ => none

/-- The value under a key of a record. -/
def get? (value : Value) (key : String) : Option Value :=
  match value with
  | record entries => entries.lookup key
  | _ => none

/-- The value reached by following keys from record to record. -/
def at? (value : Value) : List String → Option Value
  | [] => some value
  | key :: path => (value.get? key).bind (·.at? path)

/-- The record with the given entries. -/
def ofEntries (entries : List (String × Value)) : Value := record (Entries.ofList entries)

/-! ### Comparison

Values are compared with their numbers compared as numbers, so a value that holds a NaN differs
from itself, and the two zeros do not tell values apart.
-/

/-- Whether two lists have equal length and related members at each place. -/
def allSame {α : Type} (related : α → α → Bool) : List α → List α → Bool
  | [], [] => true
  | x :: xs, y :: ys => related x y && allSame related xs ys
  | _, _ => false

mutual
/-- Equality of values under floating-point comparison of their numbers. -/
def same : Value → Value → Bool
  | number x, number y => x.same y
  | vector xs, vector ys => allSame Binary64.same xs ys
  | matrix xs, matrix ys => allSame (allSame Binary64.same) xs ys
  | record xs, record ys => sameEntries xs ys
  | _, _ => false

/-- Equality of entries, key by key. -/
def sameEntries : List (String × Value) → List (String × Value) → Bool
  | [], [] => true
  | (k, x) :: xs, (l, y) :: ys => k == l && same x y && sameEntries xs ys
  | _, _ => false
end

end Value

end FieldStore
