/-
How the value of a variable may be written.

Two texts are spelled alike if they differ only in the white space around them and in the case of
their ASCII letters.  That is what `keyword` decides: it trims and lowers, and two texts have the
same keyword exactly if they are spelled alike.  A size is written in decimal digits, which have no
case and are no blanks; so it can be read off a text that has only been trimmed, and texts that are
spelled alike give the same size.

White space is listed here by the ranges of the property, letters are lowered by the library's own
function, and the value of digits is their positional value.
-/
import FieldStore.Device.Settings
import Mathlib.Data.List.TakeWhile
import Mathlib.Data.Nat.Digits.Defs

namespace FieldStore

/-! ### White space -/

/-- The characters with the property `White_Space`, by number. -/
def whiteSpace : List Nat :=
  List.range' 0x9 5 ++ [0x20, 0x85, 0xA0, 0x1680] ++ List.range' 0x2000 11
    ++ [0x2028, 0x2029, 0x202F, 0x205F, 0x3000]

theorem mem_whiteSpace {n : Nat} :
    n ∈ whiteSpace ↔ (0x9 ≤ n ∧ n ≤ 0xD) ∨ n = 0x20 ∨ n = 0x85 ∨ n = 0xA0 ∨ n = 0x1680 ∨
      (0x2000 ≤ n ∧ n ≤ 0x200A) ∨ n = 0x2028 ∨ n = 0x2029 ∨ n = 0x202F ∨ n = 0x205F ∨
        n = 0x3000 := by
  simp only [whiteSpace, List.mem_append, List.mem_range'_1, List.mem_cons, List.not_mem_nil,
    or_false, Nat.reduceAdd, Nat.lt_succ_iff, or_assoc]

/-- Whether a text is white space throughout. -/
def Blank (text : List Char) : Prop := ∀ c ∈ text, c.toNat ∈ whiteSpace

theorem isBlank_iff {c : Char} : isBlank c = true ↔ c.toNat ∈ whiteSpace := by
  simp only [mem_whiteSpace, isBlank, Bool.or_eq_true, Bool.and_eq_true, decide_eq_true_eq,
    beq_iff_eq, or_assoc]

/-- Printable ASCII but for the space is not white space. -/
theorem not_whiteSpace {n : Nat} (h : 0x20 < n ∧ n < 0x7F) : n ∉ whiteSpace := by
  rw [mem_whiteSpace]
  omega

theorem Blank.reverse {text : List Char} (h : Blank text) : Blank text.reverse :=
  fun c hmem => h c (List.mem_reverse.mp hmem)

theorem dropWhile_of_blank {front : List Char} (h : Blank front) (rest : List Char) :
    (front ++ rest).dropWhile isBlank = rest.dropWhile isBlank :=
  List.dropWhile_append_of_pos fun c hmem => isBlank_iff.mpr (h c hmem)

/-- White space on either side makes no difference. -/
theorem trimBlanks_surrounded {front back : List Char} (hfront : Blank front) (hback : Blank back)
    (core : List Char) : trimBlanks (front ++ core ++ back) = trimBlanks core := by
  have hnil : back.dropWhile isBlank = [] := by
    simpa using dropWhile_of_blank hback []
  unfold trimBlanks
  rw [List.append_assoc, dropWhile_of_blank hfront, List.dropWhile_append]
  by_cases hcore : (core.dropWhile isBlank).isEmpty = true
  · rw [if_pos hcore, hnil, List.isEmpty_iff.mp hcore]
  · rw [if_neg hcore, List.reverse_append, dropWhile_of_blank hback.reverse]

/-- What is trimmed off is white space. -/
theorem exists_surrounding (text : List Char) :
    ∃ front back, Blank front ∧ Blank back ∧ text = front ++ trimBlanks text ++ back := by
  have hblank : ∀ list : List Char, Blank (list.takeWhile isBlank) :=
    fun list c hmem => isBlank_iff.mp (List.mem_takeWhile_imp hmem)
  refine ⟨text.takeWhile isBlank, ((text.dropWhile isBlank).reverse.takeWhile isBlank).reverse,
    hblank _, (hblank _).reverse, ?_⟩
  rw [trimBlanks, List.append_assoc, ← List.reverse_append, List.takeWhile_append_dropWhile,
    List.reverse_reverse, List.takeWhile_append_dropWhile]

theorem trimBlanks_of_no_blank {text : List Char} (h : ∀ c ∈ text, ¬ isBlank c = true) :
    trimBlanks text = text := by
  have hkept : ∀ list : List Char, (∀ c ∈ list, ¬ isBlank c = true) →
      list.dropWhile isBlank = list :=
    fun list hlist => List.dropWhile_eq_self_iff.mpr fun _ => hlist _ (List.getElem_mem _)
  rw [trimBlanks, hkept text h, hkept text.reverse fun c hmem => h c (List.mem_reverse.mp hmem),
    List.reverse_reverse]

/-! ### Case -/

theorem toNat_toLower (c : Char) :
    c.toLower.toNat = if 65 ≤ c.toNat ∧ c.toNat ≤ 90 then c.toNat + 32 else c.toNat := by
  unfold Char.toLower
  by_cases h : c.val ≥ 'A'.val ∧ c.val ≤ 'Z'.val
  · have hupper : 65 ≤ c.toNat ∧ c.toNat ≤ 90 := h
    rw [dif_pos h, if_pos hupper]
    change (c.toNat + 32) % 2 ^ 32 = c.toNat + 32
    omega
  · have hother : ¬ (65 ≤ c.toNat ∧ c.toNat ≤ 90) := h
    rw [dif_neg h, if_neg hother]

theorem lowerLetter_eq (c : Char) : lowerLetter c = c.toLower := by
  have hnumber := toNat_toLower c
  unfold lowerLetter
  by_cases h : 'A' ≤ c ∧ c ≤ 'Z'
  · have hupper : 65 ≤ c.toNat ∧ c.toNat ≤ 90 := h
    rw [if_pos hupper] at hnumber
    rw [if_pos h, ← hnumber, Char.ofNat_toNat]
  · have hother : ¬ (65 ≤ c.toNat ∧ c.toNat ≤ 90) := h
    rw [if_neg hother] at hnumber
    rw [if_neg h, Char.toNat_inj.mp hnumber]

/-- No letter is a blank. -/
theorem isBlank_toLower (c : Char) : isBlank c.toLower = isBlank c := by
  rw [Bool.eq_iff_iff, isBlank_iff, isBlank_iff, toNat_toLower]
  split
  · next hupper => exact iff_of_false (not_whiteSpace (by omega)) (not_whiteSpace (by omega))
  · rfl

theorem trimBlanks_map_toLower (text : List Char) :
    trimBlanks (text.map Char.toLower) = (trimBlanks text).map Char.toLower := by
  have hcomp : isBlank ∘ Char.toLower = isBlank := funext isBlank_toLower
  simp only [trimBlanks, List.dropWhile_map, ← List.map_reverse, hcomp]

/-- Whether two texts differ only in white space around them and in the case of ASCII letters. -/
def SpelledAlike (s t : String) : Prop :=
  ∃ front core back front' core' back',
    s.toList = front ++ core ++ back ∧ t.toList = front' ++ core' ++ back' ∧
      Blank front ∧ Blank back ∧ Blank front' ∧ Blank back' ∧
        core.map Char.toLower = core'.map Char.toLower

theorem keyword_eq (s : String) :
    keyword s = String.ofList ((trimBlanks s.toList).map Char.toLower) := by
  rw [keyword, funext lowerLetter_eq]

theorem trimmed_of_spelledAlike {s t : String} (h : SpelledAlike s t) :
    (trimBlanks s.toList).map Char.toLower = (trimBlanks t.toList).map Char.toLower := by
  obtain ⟨front, core, back, front', core', back', hs, ht, hfront, hback, hfront', hback', hcore⟩ :=
    h
  rw [hs, ht, trimBlanks_surrounded hfront hback, trimBlanks_surrounded hfront' hback',
    ← trimBlanks_map_toLower, hcore, trimBlanks_map_toLower]

/-- **Texts are spelled alike if and only if they have the same keyword.** -/
theorem spelledAlike_iff {s t : String} : SpelledAlike s t ↔ keyword s = keyword t := by
  rw [keyword_eq, keyword_eq, String.ofList_inj]
  refine ⟨trimmed_of_spelledAlike, ?_⟩
  intro h
  obtain ⟨front, back, hfront, hback, hs⟩ := exists_surrounding s.toList
  obtain ⟨front', back', hfront', hback', ht⟩ := exists_surrounding t.toList
  exact ⟨_, _, _, _, _, _, hs, ht, hfront, hback, hfront', hback', h⟩

instance (s t : String) : Decidable (SpelledAlike s t) := decidable_of_iff _ spelledAlike_iff.symm

/-! ### Sizes -/

/-- The value of a text of decimal digits, the last of which counts once. -/
def decimalValue (digits : List Char) : Nat :=
  Nat.ofDigits 10 (digits.reverse.map fun d => d.toNat - '0'.toNat)

/-- Whether a text is a number in decimal digits, at least one, after one plus sign or none. -/
def IsNumeral (text : List Char) (n : Nat) : Prop :=
  ∃ digits, (text = digits ∨ text = '+' :: digits) ∧ digits ≠ [] ∧
    (∀ d ∈ digits, d.isDigit = true) ∧ decimalValue digits = n

/-- Whether a value gives a size: it is a numeral but for white space around it, and its number
fits in 64 bits. -/
def GivesSize (raw : String) (n : Nat) : Prop :=
  ∃ front text back, raw.toList = front ++ text ++ back ∧ Blank front ∧ Blank back ∧
    IsNumeral text n ∧ n < 2 ^ 64

theorem decimalValue_cons (c : Char) (digits : List Char) :
    decimalValue (c :: digits)
      = (c.toNat - '0'.toNat) * 10 ^ digits.length + decimalValue digits := by
  rw [decimalValue, List.reverse_cons, List.map_append, Nat.ofDigits_append, List.length_map,
    List.length_reverse, List.map_singleton, Nat.ofDigits_singleton, Nat.mul_comm, Nat.add_comm]
  rfl

theorem isDigit_iff {c : Char} : c.isDigit = true ↔ 48 ≤ c.toNat ∧ c.toNat ≤ 57 := by
  rw [Char.isDigit, Bool.and_eq_true, decide_eq_true_eq, decide_eq_true_eq]
  rfl

theorem digitValue_eq_some_iff {c : Char} {d : Nat} :
    digitValue c = some d ↔ c.isDigit = true ∧ d = c.toNat - '0'.toNat := by
  unfold digitValue
  by_cases h : '0' ≤ c ∧ c ≤ '9'
  · rw [if_pos h]
    simp [isDigit_iff.mpr h, eq_comm]
  · rw [if_neg h]
    simp [mt isDigit_iff.mp h]

/-- Reading digits goes on from the number read so far, which the further digits shift. -/
theorem digitsValue_eq_some_iff :
    ∀ {text : List Char} {start n : Nat}, digitsValue start text = some n ↔
      (∀ d ∈ text, d.isDigit = true) ∧ start * 10 ^ text.length + decimalValue text = n := by
  intro text
  induction text with
  | nil =>
      intro start n
      simp [digitsValue, decimalValue]
  | cons c rest ih =>
      intro start n
      rw [digitsValue, Option.bind_eq_some_iff, List.forall_mem_cons, decimalValue_cons,
        List.length_cons]
      have hshift : start * 10 ^ (rest.length + 1)
            + ((c.toNat - '0'.toNat) * 10 ^ rest.length + decimalValue rest)
          = (10 * start + (c.toNat - '0'.toNat)) * 10 ^ rest.length + decimalValue rest := by
        ring
      rw [hshift]
      constructor
      · rintro ⟨d, hd, hrest⟩
        obtain ⟨hdigit, rfl⟩ := digitValue_eq_some_iff.mp hd
        obtain ⟨hdigits, hvalue⟩ := ih.mp hrest
        exact ⟨⟨hdigit, hdigits⟩, hvalue⟩
      · rintro ⟨⟨hdigit, hdigits⟩, hvalue⟩
        exact ⟨_, digitValue_eq_some_iff.mpr ⟨hdigit, rfl⟩, ih.mpr ⟨hdigits, hvalue⟩⟩

/-- Whether a text consists of decimal digits, at least one, with this value. -/
def AreDigits (text : List Char) (n : Nat) : Prop :=
  text ≠ [] ∧ (∀ d ∈ text, d.isDigit = true) ∧ decimalValue text = n

theorem readDigits_eq_some_iff {text : List Char} {n : Nat} :
    (if text.isEmpty then none else (digitsValue 0 text).filter (· < Size.bound)) = some n
      ↔ AreDigits text n ∧ n < 2 ^ 64 := by
  by_cases hnil : text = []
  · simp [hnil, AreDigits]
  · rw [if_neg (by simpa using hnil), Option.filter_eq_some_iff, digitsValue_eq_some_iff,
      Nat.zero_mul, Nat.zero_add, decide_eq_true_eq]
    constructor
    · rintro ⟨⟨hdigits, hvalue⟩, hlt⟩
      exact ⟨⟨hnil, hdigits, hvalue⟩, hlt⟩
    · rintro ⟨⟨-, hdigits, hvalue⟩, hlt⟩
      exact ⟨⟨hdigits, hvalue⟩, hlt⟩

theorem isNumeral_plus_iff {text : List Char} {n : Nat} :
    IsNumeral ('+' :: text) n ↔ AreDigits text n := by
  constructor
  · rintro ⟨digits, rfl | hsigned, hne, hdigits, hvalue⟩
    · exact absurd (hdigits '+' List.mem_cons_self) (by decide)
    · cases hsigned
      exact ⟨hne, hdigits, hvalue⟩
  · intro h
    exact ⟨text, Or.inr rfl, h⟩

theorem isNumeral_iff_of_no_plus {text : List Char} {n : Nat}
    (hplus : ∀ rest, text ≠ '+' :: rest) : IsNumeral text n ↔ AreDigits text n := by
  constructor
  · rintro ⟨digits, rfl | hsigned, h⟩
    · exact h
    · exact absurd hsigned (hplus digits)
  · intro h
    exact ⟨text, Or.inl rfl, h⟩

/-- **A text is read as a size if and only if it is a numeral that fits.** -/
theorem readSize_eq_some_iff {text : List Char} {n : Nat} :
    readSize text = some n ↔ IsNumeral text n ∧ n < 2 ^ 64 := by
  unfold readSize
  split
  · rw [isNumeral_plus_iff]
    exact readDigits_eq_some_iff
  · next hplus =>
    rw [isNumeral_iff_of_no_plus fun rest h => hplus rest h]
    exact readDigits_eq_some_iff

/-- A numeral has no characters but its digits and perhaps a sign. -/
theorem IsNumeral.toNat_of_mem {text : List Char} {n : Nat} {c : Char} (h : IsNumeral text n)
    (hmem : c ∈ text) : c.toNat = '+'.toNat ∨ 48 ≤ c.toNat ∧ c.toNat ≤ 57 := by
  obtain ⟨digits, rfl | rfl, -, hdigits, -⟩ := h
  · exact Or.inr (isDigit_iff.mp (hdigits c hmem))
  · rcases List.mem_cons.mp hmem with rfl | hdigit
    · exact Or.inl rfl
    · exact Or.inr (isDigit_iff.mp (hdigits c hdigit))

theorem IsNumeral.no_blank {text : List Char} {n : Nat} (h : IsNumeral text n) :
    ∀ c ∈ text, ¬ isBlank c = true := by
  intro c hmem hblank
  have hplus : '+'.toNat = 43 := rfl
  have hchar := h.toNat_of_mem hmem
  exact not_whiteSpace (by omega) (isBlank_iff.mp hblank)

/-- A character in front of the letters is written in one way only. -/
theorem eq_of_toLower {c d : Char} (hc : c.toNat < 65) (h : c.toLower = d.toLower) : c = d := by
  have hnumber := congrArg Char.toNat h
  rw [toNat_toLower, toNat_toLower, if_neg (by omega)] at hnumber
  refine Char.toNat_inj.mp ?_
  split at hnumber <;> omega

theorem IsNumeral.eq_of_map_toLower {text other : List Char} {n : Nat} (h : IsNumeral text n)
    (hsame : text.map Char.toLower = other.map Char.toLower) : text = other := by
  have hlen : text.length = other.length := by simpa using congrArg List.length hsame
  refine List.ext_getElem hlen fun i hi hi' => ?_
  have hplus : '+'.toNat = 43 := rfl
  have hchar := h.toNat_of_mem (List.getElem_mem hi)
  refine eq_of_toLower (by omega) ?_
  have hget := congrArg (fun list => list[i]?) hsame
  simpa [hi, hi'] using hget

/-- Trimming finds the numeral. -/
theorem readSize_trimBlanks_iff {raw : String} {n : Nat} :
    readSize (trimBlanks raw.toList) = some n ↔ GivesSize raw n := by
  constructor
  · intro h
    obtain ⟨hnumeral, hlt⟩ := readSize_eq_some_iff.mp h
    obtain ⟨front, back, hfront, hback, hraw⟩ := exists_surrounding raw.toList
    exact ⟨front, _, back, hraw, hfront, hback, hnumeral, hlt⟩
  · rintro ⟨front, text, back, hraw, hfront, hback, hnumeral, hlt⟩
    rw [hraw, trimBlanks_surrounded hfront hback, trimBlanks_of_no_blank hnumeral.no_blank]
    exact readSize_eq_some_iff.mpr ⟨hnumeral, hlt⟩

/-- Texts that are spelled alike give the same size. -/
theorem SpelledAlike.givesSize {s t : String} {n : Nat} (h : SpelledAlike s t)
    (hsize : GivesSize s n) : GivesSize t n := by
  have hread := readSize_trimBlanks_iff.mpr hsize
  have hnumeral := (readSize_eq_some_iff.mp hread).1
  rw [hnumeral.eq_of_map_toLower (trimmed_of_spelledAlike h)] at hread
  exact readSize_trimBlanks_iff.mp hread

end FieldStore
