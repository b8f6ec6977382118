/-
Where the arithmetic on host numbers is exact.

A number of units is `Representable` if it is a significand of 53 bits moved up by no more than
the format allows.  The nearest number to so many units has just so many.  Whatever an operation
computes is therefore exact as soon as its exact result is representable, and what is left to
show of each operation is a fact about natural numbers: an integer part loses bits at the low
end only, a remainder has no more bits than the numbers it is taken of, and an integer below 2^53
has few enough in any case.
-/
import FieldStore.Proofs.Machine.Convert

namespace FieldStore.Binary64

theorem fraction_lt (x : Binary64) : x.fraction < fractions := by
  simp only [fraction, fractions]
  omega

theorem significand_lt (x : Binary64) : x.significand < 2 ^ 53 := by
  have hfrac := x.fraction_lt
  simp only [significand, fractions] at hfrac ⊢
  split <;> omega

theorem scale_le {x : Binary64} (hfin : x.isFinite = true) : x.scale ≤ 2045 := by
  simp only [isFinite, bne_iff_ne, ne_eq, exponent, exponents] at hfin
  simp only [scale, exponent, exponents]
  omega

theorem isNaN_of_isFinite {x : Binary64} (hfin : x.isFinite = true) : x.isNaN = false := by
  simp only [isFinite, bne_iff_ne, ne_eq] at hfin
  simp [isNaN, hfin]

/-! ### Patterns -/

/-- The units of a pattern, read off its magnitude bits. -/
theorem units_ofMagnitude {s : Bool} {shift n : Nat} (hshift : shift ≤ 2045)
    (hn : n < 2 * fractions) (hnormal : shift = 0 ∨ fractions ≤ n) :
    (ofMagnitude s (shift * fractions + n)).units = n <<< shift ∧
      (ofMagnitude s (shift * fractions + n)).isFinite = true ∧
      (ofMagnitude s (shift * fractions + n)).negative = s := by
  have hm : shift * fractions + n < signWeight := by
    simp only [fractions, signWeight] at hn ⊢
    omega
  obtain ⟨hneg, hexp, hfrac⟩ := fields_ofMagnitude (s := s) hm
  refine ⟨?_, ?_, hneg⟩
  · simp only [units, significand, scale, hexp, hfrac]
    rcases Nat.lt_or_ge n fractions with hlow | hhigh
    · obtain rfl : shift = 0 := hnormal.resolve_right (Nat.not_le.mpr hlow)
      rw [Nat.zero_mul, Nat.zero_add, Nat.div_eq_of_lt hlow, Nat.mod_eq_of_lt hlow, if_pos rfl]
    · have hnext : (shift * fractions + n) / fractions = shift + 1 := by
        simp only [fractions] at hn hhigh ⊢
        omega
      have hrest : fractions + (shift * fractions + n) % fractions = n := by
        simp only [fractions] at hn hhigh ⊢
        omega
      rw [hnext, hrest, if_neg (Nat.succ_ne_zero _), Nat.add_sub_cancel]
  · simp only [isFinite, hexp, bne_iff_ne, ne_eq]
    simp only [fractions] at hn ⊢
    omega

/-! ### Representable numbers of units -/

/-- Some finite number has that many units. -/
def Representable (units : Nat) : Prop :=
  ∃ n shift : Nat, n < 2 ^ 53 ∧ shift ≤ 2045 ∧ units = n * 2 ^ shift

theorem representable_units {x : Binary64} (hfin : x.isFinite = true) :
    Representable x.units :=
  ⟨x.significand, x.scale, x.significand_lt, scale_le hfin, Nat.shiftLeft_eq ..⟩

/-- A representable number of units is a multiple of the spacing of the format there. -/
theorem Representable.spacing {units : Nat} (h : Representable units) :
    ∃ n, n < 2 * fractions ∧ (units.log2 - 52 = 0 ∨ fractions ≤ n) ∧ units.log2 - 52 ≤ 2045 ∧
      units = n * 2 ^ (units.log2 - 52) := by
  obtain ⟨n, shift, hn, hshift, rfl⟩ := h
  by_cases hzero : n = 0
  · subst hzero
    exact ⟨0, by decide, by simp, by simp, by simp⟩
  · have hlead : n.log2 ≤ 52 := log2_le hn
    have hlow : 2 ^ n.log2 ≤ n := Nat.log2_self_le hzero
    have hhigh : n < 2 ^ (n.log2 + 1) := Nat.lt_log2_self
    have hf : fractions = 2 ^ 52 := by decide
    rw [← Nat.shiftLeft_eq, Binary32.log2_shiftLeft hzero, Nat.shiftLeft_eq]
    generalize hd : n.log2 + shift - 52 = d
    have hsplit : 2 ^ shift = 2 ^ (shift - d) * 2 ^ d := by
      rw [← Nat.pow_add]
      congr 1
      omega
    refine ⟨n * 2 ^ (shift - d), ?_, ?_, by omega, by rw [Nat.mul_assoc, hsplit]⟩
    · calc n * 2 ^ (shift - d) < 2 ^ (n.log2 + 1) * 2 ^ (shift - d) :=
            Nat.mul_lt_mul_of_pos_right hhigh (Nat.two_pow_pos _)
        _ = 2 ^ (n.log2 + 1 + (shift - d)) := (Nat.pow_add ..).symm
        _ ≤ 2 ^ 53 := Nat.pow_le_pow_right (by decide) (by omega)
        _ = 2 * fractions := by decide
    · by_cases hsmall : d = 0
      · exact Or.inl hsmall
      · refine Or.inr ?_
        calc fractions = 2 ^ (n.log2 + (shift - d)) := by
              rw [hf]
              congr 1
              omega
          _ = 2 ^ n.log2 * 2 ^ (shift - d) := Nat.pow_add ..
          _ ≤ n * 2 ^ (shift - d) := Nat.mul_le_mul_right _ hlow

/-- Rounding leaves a multiple of the spacing as it is. -/
theorem nearestMagnitude_of_spacing {units n : Nat} (hshift : units.log2 - 52 ≤ 2045)
    (hn : n < 2 * fractions) (h : units = n * 2 ^ (units.log2 - 52)) :
    nearestMagnitude units = (units.log2 - 52) * fractions + n := by
  simp only [nearestMagnitude]
  generalize units.log2 - 52 = d at hshift h
  rw [h, Nat.shiftLeft_eq, Nat.one_mul, Binary32.roundHalfEven_mul (Nat.two_pow_pos _)]
  apply Nat.min_eq_left
  simp only [infinity, fractions] at hn ⊢
  omega

/-- The nearest number to a representable number of units has exactly so many. -/
theorem ofUnits_exact (s : Bool) {units : Nat} (h : Representable units) :
    (ofUnits s units).units = units ∧ (ofUnits s units).isFinite = true ∧
      (ofUnits s units).negative = s := by
  obtain ⟨n, hn, hnormal, hshift, hunits⟩ := h.spacing
  rw [ofUnits, nearestMagnitude_of_spacing hshift hn hunits]
  obtain ⟨hsame, hfin, hneg⟩ := units_ofMagnitude (s := s) hshift hn hnormal
  exact ⟨hsame.trans ((Nat.shiftLeft_eq ..).trans hunits.symm), hfin, hneg⟩

theorem unitsPerOne_eq_pow : ∃ k, k ≤ 2045 ∧ unitsPerOne = 2 ^ k := by
  obtain ⟨k, hk, hone⟩ : ∃ k, k ≤ 2045 ∧ unitsPerOne = 1 <<< k := ⟨1074, by decide, rfl⟩
  exact ⟨k, hk, hone.trans (Nat.one_shiftLeft k)⟩

theorem unitsPerOne_pos : 0 < unitsPerOne := by
  obtain ⟨k, -, hone⟩ := unitsPerOne_eq_pow
  rw [hone]
  exact Nat.two_pow_pos k

theorem representable_whole {n : Nat} (h : n < 2 ^ 53) : Representable (n * unitsPerOne) := by
  obtain ⟨k, hk, hone⟩ := unitsPerOne_eq_pow
  exact ⟨n, k, h, hk, by rw [hone]⟩

/-- Dropping the units of a fraction leaves a representable number of units. -/
theorem Representable.integerPart {units : Nat} (h : Representable units) :
    Representable (units / unitsPerOne * unitsPerOne) := by
  obtain ⟨k, hk, hone⟩ := unitsPerOne_eq_pow
  obtain ⟨n, shift, hn, hshift, rfl⟩ := h
  rw [hone]
  rcases Nat.le_total k shift with hle | hle
  · have hdvd : 2 ^ k ∣ n * 2 ^ shift := Dvd.dvd.mul_left (Nat.pow_dvd_pow 2 hle) n
    rw [Nat.div_mul_cancel hdvd]
    exact ⟨n, shift, hn, hshift, rfl⟩
  · have hsplit : 2 ^ k = 2 ^ (k - shift) * 2 ^ shift := by
      rw [← Nat.pow_add, Nat.sub_add_cancel hle]
    have hdiv : n * 2 ^ shift / 2 ^ k = n / 2 ^ (k - shift) := by
      rw [hsplit, Nat.mul_div_mul_right _ _ (Nat.two_pow_pos _)]
    rw [hdiv]
    exact ⟨_, k, Nat.lt_of_le_of_lt (Nat.div_le_self ..) hn, hk, rfl⟩

/-- A remainder has the spacing of the smaller of the two numbers and is below both. -/
theorem Representable.mod {units divisor : Nat} (h : Representable units)
    (h' : Representable divisor) (hpos : 0 < divisor) : Representable (units % divisor) := by
  obtain ⟨n, shift, hn, hshift, rfl⟩ := h
  obtain ⟨m, shift', hm, hshift', rfl⟩ := h'
  rcases Nat.le_total shift' shift with hle | hle
  · have hsplit : n * 2 ^ shift = n * 2 ^ (shift - shift') * 2 ^ shift' := by
      rw [Nat.mul_assoc, ← Nat.pow_add, Nat.sub_add_cancel hle]
    have hmpos : 0 < m := Nat.pos_of_mul_pos_right hpos
    rw [hsplit, Nat.mul_mod_mul_right]
    exact ⟨_, shift', Nat.lt_trans (Nat.mod_lt _ hmpos) hm, hshift', rfl⟩
  · have hsplit : m * 2 ^ shift' = m * 2 ^ (shift' - shift) * 2 ^ shift := by
      rw [Nat.mul_assoc, ← Nat.pow_add, Nat.sub_add_cancel hle]
    rw [hsplit, Nat.mul_mod_mul_right]
    exact ⟨_, shift, Nat.lt_of_le_of_lt (Nat.mod_le ..) hn, hshift, rfl⟩

/-! ### Signs -/

theorem signedUnits_ofUnits (s : Bool) {units : Nat} (h : Representable units) :
    (ofUnits s units).signedUnits = if s then -(units : Int) else units := by
  obtain ⟨hunits, -, hneg⟩ := ofUnits_exact s h
  rw [signedUnits, hunits, hneg]

theorem isZero_iff {x : Binary64} : x.isZero = true ↔ x.units = 0 := by
  simp only [isZero, units, significand, fractions, Nat.shiftLeft_eq, Bool.and_eq_true, beq_iff_eq,
    Nat.mul_eq_zero, Nat.pow_eq_zero]
  split <;> omega

theorem belowZero_iff {x : Binary64} (hfin : x.isFinite = true) :
    x.belowZero = true ↔ x.signedUnits < 0 := by
  have hzero := isZero_iff (x := x)
  rw [belowZero, isNaN_of_isFinite hfin, signedUnits]
  cases x.negative with
  | false => simp
  | true =>
      simp only [Bool.true_and, Bool.not_false, Bool.and_true, Bool.not_eq_true', if_true]
      rw [← Bool.not_eq_true, hzero]
      omega

/-- Leaving out the sign leaves the units as they are. -/
theorem abs_exact (x : Binary64) : x.abs.signedUnits = x.units := by
  have hexp : x.exponent < exponents := Nat.mod_lt _ (by decide)
  obtain ⟨hneg, hsame, hfrac⟩ := fields_ofParts (s := false) hexp x.fraction_lt
  simp only [signedUnits, abs, hneg, units, significand, scale, hsame, hfrac]
  rfl

/-! ### Operations -/

variable {x y : Binary64}

/-- Truncation is exact. -/
theorem integerPart_exact (hfin : x.isFinite = true) :
    x.integerPart.units = x.units / unitsPerOne * unitsPerOne ∧
      x.integerPart.isFinite = true ∧ x.integerPart.negative = x.negative := by
  rw [integerPart, if_pos hfin]
  exact ofUnits_exact x.negative (representable_units hfin).integerPart

/-- A remainder is exact. -/
theorem rem_exact (hx : x.isFinite = true) (hy : y.isFinite = true) (hpos : 0 < y.units) :
    (x.rem y).units = x.units % y.units ∧ (x.rem y).isFinite = true ∧
      (x.rem y).negative = x.negative :=
  ofUnits_exact x.negative ((representable_units hx).mod (representable_units hy) hpos)

/-- A sum is exact if some number is the sum. -/
theorem add_exact (h : Representable (x.signedUnits + y.signedUnits).natAbs) :
    (x.add y).signedUnits = x.signedUnits + y.signedUnits ∧ (x.add y).isFinite = true := by
  obtain ⟨-, hfin, -⟩ := ofUnits_exact
    (if x.signedUnits + y.signedUnits = 0 then x.negative && y.negative
      else decide (x.signedUnits + y.signedUnits < 0)) h
  refine ⟨?_, hfin⟩
  rw [add, signedUnits_ofUnits _ h]
  generalize x.signedUnits + y.signedUnits = sum
  by_cases hzero : sum = 0
  · simp [hzero]
  · rw [if_neg hzero]
    by_cases hneg : sum < 0
    · rw [if_pos (decide_eq_true hneg)]
      omega
    · rw [if_neg (by simpa using hneg)]
      omega

/-- The remainder that is not below zero is exact if some number is that remainder. -/
theorem remEuclid_exact (hx : x.isFinite = true) (hy : y.isFinite = true) (hpos : 0 < y.units)
    (h : Representable (x.signedUnits % y.units).natAbs) :
    (x.remEuclid y).signedUnits = x.signedUnits % y.units ∧ (x.remEuclid y).isFinite = true := by
  obtain ⟨hunits, hfin, hneg⟩ := rem_exact hx hy hpos
  have hbelow := belowZero_iff hfin
  -- The remainder that has the sign of `x` is the wanted one, or less than it by `y`.
  have hshift : (x.rem y).signedUnits = x.signedUnits % y.units ∧ ¬ (x.rem y).signedUnits < 0 ∨
      (x.rem y).signedUnits + y.units = x.signedUnits % y.units ∧ (x.rem y).signedUnits < 0 := by
    have hcast : ((x.units % y.units : Nat) : Int) = (x.units : Int) % y.units := Int.natCast_mod ..
    simp only [signedUnits, hunits, hneg]
    by_cases hsign : x.negative = true
    · by_cases hdvd : (y.units : Int) ∣ x.units
      · have hzero := Int.emod_eq_zero_of_dvd hdvd
        simp only [hsign, if_true, Int.neg_emod, if_pos hdvd]
        omega
      · have hne : (x.units : Int) % y.units ≠ 0 := fun h => hdvd (Int.dvd_of_emod_eq_zero h)
        simp only [hsign, if_true, Int.neg_emod, if_neg hdvd, Int.natAbs_natCast]
        omega
    · simp only [hsign, if_false, Bool.false_eq_true]
      omega
  rw [remEuclid]
  rcases hshift with ⟨hsame, hnonneg⟩ | ⟨hless, hlt⟩
  · rw [if_neg fun h => hnonneg (hbelow.mp h)]
    exact ⟨hsame, hfin⟩
  · rw [if_pos (hbelow.mpr hlt), ← hless, ← abs_exact y]
    refine add_exact ?_
    rw [abs_exact y, hless]
    exact h

/-- A whole number that has an unsigned integer is cut down to it. -/
theorem toUnsigned_whole {n : Nat} (hfin : x.isFinite = true) (hn : n ≤ unsignedLimit)
    (h : x.signedUnits = (n * unitsPerOne : Nat)) : x.toUnsigned = BitVec.ofNat 64 n := by
  have hnan := isNaN_of_isFinite hfin
  have hone := unitsPerOne_pos
  rw [toUnsigned, hnan, hfin]
  by_cases hneg : x.negative = true
  · -- Only a zero is negative and not below zero.
    have hzero : n * unitsPerOne = 0 := by
      rw [signedUnits, if_pos hneg] at h
      omega
    obtain rfl : n = 0 := (Nat.mul_eq_zero.mp hzero).resolve_right (Nat.ne_of_gt hone)
    simp [hneg]
  · have hunits : x.units = n * unitsPerOne := by
      rw [signedUnits, if_neg hneg] at h
      exact Int.ofNat.inj h
    simp [hneg, hunits, Nat.mul_div_cancel _ hone, Nat.min_eq_left hn]

end FieldStore.Binary64
