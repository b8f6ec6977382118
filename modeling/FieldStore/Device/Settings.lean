/-
Which device to use and how much it may allocate, as read from environment variables.

There are four variables, and each is read on its own: no variable has a say in the setting of
another.  A variable that is not set leaves its setting at the default.  Surrounding blanks are
ignored, and so is the case of ASCII letters.  A word that is not understood leaves the default
in place and is reported by a warning, except that the flag for fallback adapters takes every
word but its three spellings of yes for a no.

Blanks are the characters with the Unicode property `White_Space`.
-/
import FieldStore.Event
import FieldStore.Machine.Size

namespace FieldStore

/-! ### Words -/

/-- Whether a character has the property `White_Space`. -/
def isBlank (c : Char) : Bool :=
  let n := c.toNat
  (0x9 ≤ n && n ≤ 0xD) || n == 0x20 || n == 0x85 || n == 0xA0 || n == 0x1680 ||
    (0x2000 ≤ n && n ≤ 0x200A) || n == 0x2028 || n == 0x2029 || n == 0x202F || n == 0x205F ||
    n == 0x3000

/-- The characters without the blanks at either end. -/
def trimBlanks (cs : List Char) : List Char :=
  ((cs.dropWhile isBlank).reverse.dropWhile isBlank).reverse

/-- The lower case form of an ASCII letter; any other character is its own. -/
def lowerLetter (c : Char) : Char :=
  if 'A' ≤ c ∧ c ≤ 'Z' then Char.ofNat (c.toNat + 32) else c

/-- A word as the settings compare it: trimmed, its ASCII letters in lower case. -/
def keyword (s : String) : String := String.ofList ((trimBlanks s.toList).map lowerLetter)

/-- The value of a decimal digit. -/
def digitValue (c : Char) : Option Nat :=
  if '0' ≤ c ∧ c ≤ '9' then some (c.toNat - '0'.toNat) else none

/-- The number that extends `n` by the given digits, if all are digits. -/
def digitsValue (n : Nat) : List Char → Option Nat
  | [] => some n
  | c :: rest => (digitValue c).bind fun d => digitsValue (10 * n + d) rest

/-- The size written as decimal digits, at least one, with an optional plus sign in front. -/
def readSize (cs : List Char) : Option Nat :=
  let digits := match cs with
    | '+' :: rest => rest
    | _ => cs
  if digits.isEmpty then none
  else (digitsValue 0 digits).filter (· < Size.bound)

/-! ### Settings -/

/-- Where fields are stored. -/
inductive Backend
  | gpu
  | host
  deriving DecidableEq, Repr

/-- Which kind of adapter to prefer. -/
inductive PowerPreference
  | none
  | lowPower
  | highPerformance
  deriving DecidableEq, Repr

/-- The settings of a device. -/
structure Settings where
  backend : Backend
  powerPreference : PowerPreference
  forceFallbackAdapter : Bool
  maxBufferBytes : Option Nat
  deriving DecidableEq

namespace Settings

/-- The settings that hold unless something else is asked for. -/
def generic : Settings := ⟨.gpu, .highPerformance, false, none⟩

/-- The generic settings with fields stored in host memory. -/
def host : Settings := { generic with backend := .host }

/-- The warning that a variable holds `value`, which is not understood. -/
def warning (message value : String) : Event := ⟨.warn, message, [("value", value)]⟩

/-- The backend that a variable names. -/
def readBackend : Option String → Backend × List Event
  | none => (generic.backend, [])
  | some raw =>
      let word := keyword raw
      if word = "gpu" then (.gpu, [])
      else if word = "host" ∨ word = "cpu" then (.host, [])
      else (generic.backend, [warning "Unrecognized TI_BACKEND, using gpu" word])

/-- The preference that a variable names. -/
def readPowerPreference : Option String → PowerPreference × List Event
  | none => (generic.powerPreference, [])
  | some raw =>
      let word := keyword raw
      if word = "high" then (.highPerformance, [])
      else if word = "low" then (.lowPower, [])
      else if word = "none" then (.none, [])
      else (generic.powerPreference,
        [warning "Unrecognized TI_POWER_PREFERENCE, using high" word])

/-- Whether a variable says yes. -/
def readForceFallback : Option String → Bool
  | none => generic.forceFallbackAdapter
  | some raw =>
      let word := keyword raw
      word = "1" ∨ word = "true" ∨ word = "yes"

/-- The limit that a variable gives. -/
def readMaxBufferBytes : Option String → Option Nat × List Event
  | none => (generic.maxBufferBytes, [])
  | some raw =>
      match readSize (trimBlanks raw.toList) with
      | some bytes => (some bytes, [])
      | none => (generic.maxBufferBytes, [warning "Unparsable TI_MAX_BUFFER_BYTES, ignoring" raw])

/-- The variables that are read, in their order. -/
def variableNames : List String :=
  ["TI_BACKEND", "TI_POWER_PREFERENCE", "TI_FORCE_FALLBACK_ADAPTER", "TI_MAX_BUFFER_BYTES"]

/-- The settings that the variables give, and the warnings in the order of the variables. -/
def ofVariables (lookup : String → Option String) : Settings × List Event :=
  let (backend, backendLog) := readBackend (lookup "TI_BACKEND")
  let (power, powerLog) := readPowerPreference (lookup "TI_POWER_PREFERENCE")
  let fallback := readForceFallback (lookup "TI_FORCE_FALLBACK_ADAPTER")
  let (limit, limitLog) := readMaxBufferBytes (lookup "TI_MAX_BUFFER_BYTES")
  (⟨backend, power, fallback, limit⟩, backendLog ++ powerLog ++ limitLog)

end Settings

end FieldStore
