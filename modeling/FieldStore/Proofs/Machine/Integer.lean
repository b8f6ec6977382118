/-
The word of a host number.

An integer slot takes the word congruent modulo 2^32 to the number truncated toward zero.  The
conversion gets there by arithmetic on host numbers, and no step of it rounds: the truncated
number is a number again, and so is its remainder, which is an integer below 2^32.  That is
shown once, in `toIntWord_eq`; everything else is arithmetic of integers.

The number itself is taken as the rational that its bits stand for, so that nothing about the
format is left in what is said about it.
-/
import FieldStore.Proofs.Machine.Arithmetic
import Mathlib.Data.Int.ModEq
import Mathlib.Data.Rat.Floor
import Mathlib.Tactic.FieldSimp
import Mathlib.Tactic.Ring

namespace FieldStore.Binary64

/-! ### Integers among the numbers -/

theorem shiftLeft_eq_mul (n k : Nat) : n <<< k = n * 1 <<< k := by
  rw [Nat.shiftLeft_eq, Nat.shiftLeft_eq, Nat.one_mul]

/-- An integer of at most 53 bits is a number. -/
theorem ofInt_exact {i : Int} (h : i.natAbs < 2 ^ 53) :
    (ofInt i).units = i.natAbs * unitsPerOne ∧ (ofInt i).isFinite = true ∧
      (ofInt i).negative = decide (i < 0) := by
  have hlog : i.natAbs.log2 ≤ 52 := log2_le h
  obtain ⟨hunits, hfin, hneg⟩ :=
    units_exact (decide (i < 0)) hlog (show i.natAbs.log2 + 149 ≤ 1172 by omega)
  exact ⟨hunits.trans (shiftLeft_eq_mul _ _), hfin, hneg⟩

theorem signedUnits_ofInt {i : Int} (h : i.natAbs < 2 ^ 53) :
    (ofInt i).signedUnits = i * unitsPerOne := by
  obtain ⟨hunits, -, hneg⟩ := ofInt_exact h
  rw [signedUnits, hunits, hneg, Int.natCast_mul]
  by_cases hlt : i < 0
  · rw [if_pos (decide_eq_true hlt), ← Int.neg_mul]
    congr 1
    omega
  · rw [if_neg (by simpa using hlt)]
    congr 1
    omega

variable {x : Binary64}

theorem signedUnits_integerPart (hfin : x.isFinite = true) :
    x.integerPart.signedUnits = x.truncate * unitsPerOne := by
  obtain ⟨hunits, -, hneg⟩ := integerPart_exact hfin
  simp only [signedUnits, truncate, hunits, hneg, Int.natCast_mul]
  split
  · rw [Int.neg_mul]
  · rfl

theorem truncate_eq_tdiv (x : Binary64) : x.truncate = x.signedUnits.tdiv unitsPerOne := by
  simp only [truncate, signedUnits]
  split
  · rw [Int.neg_tdiv]
    rfl
  · rfl

/-- An integer is its own integer part. -/
theorem truncate_of_whole {i : Int} (h : x.signedUnits = i * unitsPerOne) : x.truncate = i := by
  have hone := unitsPerOne_pos
  rw [truncate_eq_tdiv, h, Int.mul_tdiv_cancel _ (by omega)]

/-! ### The word of a number -/

/-- The remainder modulo the number of words, which is what is left of the truncated number. -/
theorem remEuclid_wordCount (hfin : x.isFinite = true) :
    (x.integerPart.remEuclid wordCount).signedUnits = x.truncate % 0x100000000 * unitsPerOne ∧
      (x.integerPart.remEuclid wordCount).isFinite = true := by
  obtain ⟨hcount, hcountFin, -⟩ := ofInt_exact (i := 0x100000000) (by decide)
  have hcount' : wordCount.units = 0x100000000 * unitsPerOne := hcount
  have hone := unitsPerOne_pos
  have hremainder : x.integerPart.signedUnits % wordCount.units
      = x.truncate % 0x100000000 * unitsPerOne := by
    rw [signedUnits_integerPart hfin, hcount', Int.natCast_mul, Int.mul_comm x.truncate,
      Int.mul_comm ((0x100000000 : Nat) : Int), Int.mul_emod_mul_of_pos _ _ (by omega),
      Int.mul_comm]
    rfl
  rw [← hremainder]
  refine remEuclid_exact (integerPart_exact hfin).2.1 hcountFin (by omega) ?_
  rw [hremainder, Int.natAbs_mul, Int.natAbs_natCast]
  exact representable_whole (by omega)

/-- No step of the conversion rounds. -/
theorem toIntWord_eq (x : Binary64) :
    x.toIntWord = if x.isFinite then BitVec.ofInt 32 x.truncate else 0 := by
  rw [toIntWord]
  by_cases hfin : x.isFinite = true
  · rw [if_pos hfin, if_pos hfin]
    obtain ⟨hunits, hfin'⟩ := remEuclid_wordCount hfin
    obtain ⟨n, hn⟩ : ∃ n : Nat, x.truncate % 0x100000000 = n :=
      ⟨(x.truncate % 0x100000000).toNat, by omega⟩
    rw [hn, ← Int.natCast_mul] at hunits
    rw [toUnsigned_whole hfin' (by rw [unsignedLimit]; omega) hunits]
    apply BitVec.eq_of_toNat_eq
    rw [BitVec.toNat_setWidth, BitVec.toNat_ofNat, BitVec.toNat_ofInt]
    omega
  · rw [if_neg hfin, if_neg hfin]

theorem natAbs_toInt_lt (w : Word) : w.toInt.natAbs < 2 ^ 53 := by
  have hlo := BitVec.le_toInt w
  have hhi := BitVec.toInt_lt (x := w)
  omega

/-- A word that is widened to a host number comes back. -/
theorem toIntWord_ofWord (w : Word) : (ofWord w).toIntWord = w := by
  have hw := natAbs_toInt_lt w
  obtain ⟨-, hfin, -⟩ := ofInt_exact hw
  rw [toIntWord_eq, ofWord, if_pos hfin, truncate_of_whole (signedUnits_ofInt hw)]
  exact BitVec.ofInt_toInt

theorem ofInt_eq_of_modEq {i j : ℤ} (h : i ≡ j [ZMOD 2 ^ 32]) :
    BitVec.ofInt 32 i = BitVec.ofInt 32 j := by
  have hmod : i % ((2 ^ 32 : Nat) : Int) = j % ((2 ^ 32 : Nat) : Int) := h
  apply BitVec.eq_of_toNat_eq
  rw [BitVec.toNat_ofInt, BitVec.toNat_ofInt, hmod]

/-- A word is told by the class of its integer. -/
theorem eq_ofInt_iff {w : Word} {i : ℤ} :
    w = BitVec.ofInt 32 i ↔ w.toInt ≡ i [ZMOD 2 ^ 32] := by
  constructor
  · rintro rfl
    rw [BitVec.toInt_ofInt]
    exact Int.bmod_emod
  · intro h
    rw [← ofInt_eq_of_modEq h, BitVec.ofInt_toInt]

/-! ### The number that the bits stand for -/

/-- The rational that the bits of a finite number stand for. -/
def value (x : Binary64) : ℚ :=
  (if x.negative then -1 else 1) * x.significand * 2 ^ ((x.scale : ℤ) - 1074)

/-- A rational without its fractional part. -/
def towardZero (q : ℚ) : ℤ := if 0 ≤ q then ⌊q⌋ else ⌈q⌉

theorem value_eq (x : Binary64) : x.value = x.signedUnits / unitsPerOne := by
  obtain ⟨k, hk, hone⟩ : ∃ k : ℕ, (k : ℤ) = 1074 ∧ unitsPerOne = 1 <<< k := ⟨1074, rfl, rfl⟩
  have hunits : (x.units : ℚ) = x.significand * 2 ^ x.scale := by
    rw [units, Nat.shiftLeft_eq]
    push_cast
    rfl
  have hsigned : (x.signedUnits : ℚ) = (if x.negative then -1 else 1) * x.units := by
    rw [signedUnits]
    split <;> simp
  have hcast : (unitsPerOne : ℚ) = 2 ^ k := by
    rw [hone, Nat.one_shiftLeft]
    push_cast
    rfl
  rw [value, ← hk, zpow_sub₀ two_ne_zero, zpow_natCast, zpow_natCast, hsigned, hunits, hcast]
  ring

theorem towardZero_intCast (i : ℤ) : towardZero i = i := by
  simp [towardZero]

/-- A quotient without its fractional part is the quotient of integers that rounds that way. -/
theorem towardZero_div (i : ℤ) {d : ℕ} (hd : 0 < d) : towardZero ((i : ℚ) / d) = i.tdiv d := by
  have hd' : (0 : ℚ) < d := Nat.cast_pos.mpr hd
  rcases lt_or_ge i 0 with hi | hi
  · have hneg : (i : ℚ) / d < 0 := div_neg_of_neg_of_pos (Int.cast_lt_zero.mpr hi) hd'
    have hquotient : i.tdiv d = -(-i / d) := by
      rw [← Int.tdiv_eq_ediv_of_nonneg (by omega), Int.neg_tdiv, Int.neg_neg]
    rw [towardZero, if_neg (not_le.mpr hneg), Rat.ceil_intCast_div_natCast, hquotient]
  · have hnonneg : (0 : ℚ) ≤ i / d := div_nonneg (Int.cast_nonneg_iff.mpr hi) (le_of_lt hd')
    rw [towardZero, if_pos hnonneg, Rat.floor_intCast_div_natCast, Int.tdiv_eq_ediv_of_nonneg hi]

theorem truncate_eq (x : Binary64) : x.truncate = towardZero x.value := by
  rw [value_eq, towardZero_div _ unitsPerOne_pos, truncate_eq_tdiv]

theorem value_ofInt {i : ℤ} (h : i.natAbs < 2 ^ 53) : (ofInt i).value = i := by
  have hone : (unitsPerOne : ℚ) ≠ 0 := Nat.cast_ne_zero.mpr (Nat.ne_of_gt unitsPerOne_pos)
  rw [value_eq, signedUnits_ofInt h, Int.cast_mul, Int.cast_natCast, mul_div_cancel_right₀ _ hone]

/-- **The word of a number is the number truncated toward zero, modulo 2^32.**  For a finite
number, of whatever magnitude, it is the only word whose integer is congruent to the truncated
number; for what is not finite it is 0.  Every word comes back when the signed or the unsigned
integer that it stands for is widened, which is exact, and integers that differ by a multiple of
2^32 have the same word. -/
theorem toIntWord_wraps :
    (∀ x : Binary64, x.isFinite = true →
      ∀ w : Word, w = x.toIntWord ↔ w.toInt ≡ towardZero x.value [ZMOD 2 ^ 32]) ∧
    (∀ x : Binary64, x.isFinite = false → x.toIntWord = 0) ∧
    (∀ w : Word, (ofInt w.toInt).isFinite = true ∧ (ofInt w.toInt).value = w.toInt ∧
      (ofInt w.toInt).toIntWord = w) ∧
    (∀ w : Word, (ofInt w.toNat).isFinite = true ∧ (ofInt w.toNat).value = w.toNat ∧
      (ofInt w.toNat).toIntWord = w) ∧
    ∀ (x y : Binary64) (i k : ℤ), x.isFinite = true → y.isFinite = true → x.value = i →
      y.value = i + k * 2 ^ 32 → x.toIntWord = y.toIntWord := by
  refine ⟨?_, ?_, ?_, ?_, ?_⟩
  · intro x hfin w
    rw [toIntWord_eq, if_pos hfin, ← truncate_eq]
    exact eq_ofInt_iff
  · intro x hfin
    rw [toIntWord_eq, if_neg (by simp [hfin])]
  · intro w
    have hw := natAbs_toInt_lt w
    exact ⟨(ofInt_exact hw).2.1, value_ofInt hw, toIntWord_ofWord w⟩
  · intro w
    have hw : (w.toNat : ℤ).natAbs < 2 ^ 53 := by omega
    have hfin := (ofInt_exact hw).2.1
    refine ⟨hfin, value_ofInt hw, ?_⟩
    rw [toIntWord_eq, if_pos hfin, truncate_of_whole (signedUnits_ofInt hw)]
    rw [BitVec.ofInt_natCast, BitVec.ofNat_toNat, BitVec.setWidth_eq]
  · intro x y i k hx hy hxi hyi
    have hcast : (i : ℚ) + k * 2 ^ 32 = ((i + k * 2 ^ 32 : ℤ) : ℚ) := by push_cast; rfl
    rw [toIntWord_eq, toIntWord_eq, if_pos hx, if_pos hy, truncate_eq, truncate_eq, hxi, hyi, hcast,
      towardZero_intCast, towardZero_intCast]
    exact ofInt_eq_of_modEq (Int.modEq_iff_dvd.mpr ⟨k, by ring⟩)

/-- A number one below the integers of a word, a number between 0 and -1, an infinity, and two
integers that are 2^20 times 2^32 apart, and 2^250. -/
theorem toIntWord_wraps_beyond :
    let low := ofInt (-0x80000001)
    let half : Binary64 := ⟨0xbfe0000000000000⟩
    low.isFinite = true ∧ low.toIntWord = 0x7fffffff ∧
      half.isFinite = true ∧ half.value = -1 / 2 ∧ half.toIntWord = 0 ∧
      (⟨0x7ff0000000000000⟩ : Binary64).toIntWord = 0 ∧
      (ofInt 5).value = 5 ∧ (ofInt 0x10000000000005).value = 5 + 0x100000 * 2 ^ 32 ∧
      (ofInt 5).toIntWord = (ofInt 0x10000000000005).toIntWord ∧
      (ofInt 0).toIntWord = (⟨0x4f90000000000000⟩ : Binary64).toIntWord := by
  obtain ⟨hfinite, hspecial, -, -, hspans⟩ := toIntWord_wraps
  intro low half
  have hlow : low.value = ((-0x80000001 : ℤ) : ℚ) := value_ofInt (by decide)
  have hhalf : half.value = -1 / 2 := by
    have hsignificand : half.significand = 0x10000000000000 := by decide
    have hscale : half.scale = 1021 := by decide
    have hnegative : half.negative = true := by decide
    rw [value, hsignificand, hscale, hnegative]
    norm_num
  have hfive : (ofInt 5).value = (5 : ℤ) := value_ofInt (by decide)
  have hspan : (ofInt 0x10000000000005).value = (5 : ℤ) + (0x100000 : ℤ) * 2 ^ 32 := by
    rw [value_ofInt (by decide)]
    norm_num
  have hzero : (ofInt 0).value = (0 : ℤ) := value_ofInt (by decide)
  have hhuge : (⟨0x4f90000000000000⟩ : Binary64).value = (0 : ℤ) + (2 ^ 218 : ℤ) * 2 ^ 32 := by
    have hsignificand : (⟨0x4f90000000000000⟩ : Binary64).significand = 0x10000000000000 := by decide
    have hscale : (⟨0x4f90000000000000⟩ : Binary64).scale = 1272 := by decide
    have hnegative : (⟨0x4f90000000000000⟩ : Binary64).negative = false := by decide
    rw [value, hsignificand, hscale, hnegative]
    norm_num
  refine ⟨by decide, ?_, by decide, hhalf, ?_, hspecial _ (by decide), by simpa using hfive,
    by simpa using hspan, hspans _ _ 5 0x100000 (by decide) (by decide) hfive hspan,
    hspans _ _ 0 (2 ^ 218) (by decide) (by decide) hzero hhuge⟩
  · refine ((hfinite low (by decide) _).mpr ?_).symm
    rw [hlow, towardZero_intCast]
    decide
  · have hzero : towardZero (-1 / 2) = 0 := by
      rw [towardZero]
      norm_num
    refine ((hfinite half (by decide) _).mpr ?_).symm
    rw [hhalf, hzero]
    decide

end FieldStore.Binary64
