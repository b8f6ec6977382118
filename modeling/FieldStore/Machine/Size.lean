/-
Sizes under the bounds of a 64-bit machine.

Dimensions, offsets and byte counts are natural numbers throughout the library, so that laws
about them are laws of arithmetic and not of arithmetic modulo 2^64.  What the machine adds is
that a sum or a product may not fit and that no single object exceeds the address space.  The
operations below make that visible: each returns the exact result or stops with a `Fault`, and
none ever returns a wrapped one.

A fault is not an error.  An error tells the caller what was wrong with the request; a fault
says that the computation could not be carried out at all.  `Failure` keeps the two apart, so
that a statement such as "only these errors arise" can also say that no fault does.

A list for which room is set aside gets a `reserve` where that can fail while little is held.  It
gets none where the room is a few words for each item of a list that exists by then.  To fail
there, such a list would have to take 2^59 bytes or more itself, and memory ends long before.
-/

namespace FieldStore

/-- Why a computation could not be carried out. -/
inductive Fault
  /-- A sum or product does not fit in 64 bits. -/
  | overflow
  /-- One object would be larger than the address space allows. -/
  | capacity
  /-- A division by zero. -/
  | divisionByZero
  /-- A list was read or written outside its bounds. -/
  | outOfBounds
  deriving DecidableEq, Repr

/-- How a computation ends when it has no result: with an error of its own or with a fault. -/
inductive Failure (ε : Type) where
  | error (cause : ε)
  | fault (reason : Fault)
  deriving DecidableEq

namespace Failure

/-- The same failure with its error restated in the terms of a caller. -/
def map {ε ε' : Type} (f : ε → ε') : Failure ε → Failure ε'
  | .error cause => .error (f cause)
  | .fault reason => .fault reason

end Failure

/-- A result, an error or a fault. -/
abbrev Outcome (ε : Type) (α : Type) : Type := Except (Failure ε) α

namespace Size

variable {ε : Type}

/-- One more than the largest size a machine word can hold: 2^64. -/
def bound : Nat := 0x10000000000000000

/-- The largest number of bytes that one object may occupy: 2^63 - 1. -/
def objectLimit : Nat := 0x7fffffffffffffff

/-- The sum, provided it fits. -/
def add (a b : Nat) : Outcome ε Nat :=
  if a + b < bound then .ok (a + b) else .error (.fault .overflow)

/-- The product, provided it fits. -/
def mul (a b : Nat) : Outcome ε Nat :=
  if a * b < bound then .ok (a * b) else .error (.fault .overflow)

/-- The product of a list, every partial product from the left having to fit.  A zero therefore
does not excuse an overflow to its left. -/
def product (sizes : List Nat) : Outcome ε Nat :=
  sizes.foldlM mul 1

/-- Whether `count` items of `width` bytes each can be held in one object. -/
def reserve (width count : Nat) : Outcome ε Unit :=
  if width * count ≤ objectLimit then .ok () else .error (.fault .capacity)

/-- The quotient rounded up. -/
def divUp (a b : Nat) : Outcome ε Nat :=
  if b = 0 then .error (.fault .divisionByZero)
  else .ok (if a % b = 0 then a / b else a / b + 1)

/-- The smallest power of two that is at least `n`, and 1 for 0. -/
def nextPowerOfTwo (n : Nat) : Outcome ε Nat :=
  let power := if n ≤ 1 then 1 else 1 <<< ((n - 1).log2 + 1)
  if power < bound then .ok power else .error (.fault .overflow)

/-- The next multiple of `step` at or above `n`. -/
def roundUp (n step : Nat) : Outcome ε Nat :=
  if n % step = 0 then .ok n else add n (step - n % step)

end Size

end FieldStore
