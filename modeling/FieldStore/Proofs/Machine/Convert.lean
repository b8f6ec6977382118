/-
Conversions lose nothing on the way back.

Every word, read as a floating-point number, becomes a host number that converts to the
same word again, except that a signalling NaN comes back quiet: `ofBinary64_ofBinary32`.

The widened pattern of a finite number counts `significand * 2 ^ (925 + scale)` units
of 2^-1074, and the grid of the 32-bit format at that magnitude is spaced
2^(925 + scale) units.  So the division that rounds has no remainder, whether the
number is normal or subnormal.

What has been rounded once is settled: rounding it again changes nothing, NaNs
included, because the first rounding has made them quiet.
-/
import FieldStore.Machine.Convert
import Mathlib.Algebra.Order.Group.Nat
import Mathlib.Tactic.Ring

namespace FieldStore

/-- The sign, the exponent and the fraction of a number packed from its sign and its magnitude
bits, whatever the widths of the fields. -/
theorem fields_ofNat {e f m : Nat} (s : Bool) (hm : m < 2 ^ (e + f)) :
    let bits := BitVec.ofNat (e + f + 1) ((if s then 2 ^ (e + f) else 0) + m)
    bits.msb = s ∧ bits.toNat / 2 ^ f % 2 ^ e = m / 2 ^ f ∧
      bits.toNat % 2 ^ f = m % 2 ^ f := by
  intro bits
  have htop : 2 ^ (e + f) = 2 ^ f * 2 ^ e := by rw [Nat.add_comm, Nat.pow_add]
  have hbits : bits.toNat = m + if s then 2 ^ (e + f) else 0 := by
    simp only [bits, BitVec.toNat_ofNat]
    rw [Nat.mod_eq_of_lt (by rw [Nat.pow_succ]; split <;> omega), Nat.add_comm]
  have hlow : m / 2 ^ f < 2 ^ e := Nat.div_lt_of_lt_mul (htop ▸ hm)
  rw [BitVec.msb_eq_decide, hbits]
  cases s with
  | false => simp [Nat.mod_eq_of_lt hlow, hm]
  | true => simp [htop, Nat.add_mul_div_left, Nat.mod_eq_of_lt hlow]

namespace Binary64

theorem fields_ofMagnitude {s : Bool} {m : Nat} (hm : m < signWeight) :
    (ofMagnitude s m).negative = s ∧ (ofMagnitude s m).exponent = m / fractions ∧
      (ofMagnitude s m).fraction = m % fractions :=
  fields_ofNat (e := 11) (f := 52) s hm

theorem fields_ofParts {s : Bool} {e f : Nat} (he : e < exponents) (hf : f < fractions) :
    (ofMagnitude s (e * fractions + f)).negative = s ∧
      (ofMagnitude s (e * fractions + f)).exponent = e ∧
      (ofMagnitude s (e * fractions + f)).fraction = f := by
  have hm : e * fractions + f < signWeight := by
    simp only [exponents, fractions, signWeight] at he hf ⊢
    omega
  have hparts : (e * fractions + f) / fractions = e ∧ (e * fractions + f) % fractions = f := by
    simp only [fractions] at hf ⊢
    omega
  simpa only [hparts.1, hparts.2] using fields_ofMagnitude (s := s) hm

/-! ### Exact patterns -/

/-- The fraction of an exact pattern: the significand below its leading bit, moved up to the top
of the field. -/
theorem leading_fraction {n : Nat} (hn : n ≠ 0) (hlog : n.log2 ≤ 52) :
    fractions + (n - 1 <<< n.log2) <<< (52 - n.log2) = n <<< (52 - n.log2) ∧
      (n - 1 <<< n.log2) <<< (52 - n.log2) < fractions := by
  have hlow : 2 ^ n.log2 ≤ n := Nat.log2_self_le hn
  have hhigh : n < 2 ^ (n.log2 + 1) := Nat.lt_log2_self
  have hsplit : 2 ^ n.log2 * 2 ^ (52 - n.log2) = 2 ^ 52 := by
    rw [← Nat.pow_add]
    congr 1
    omega
  have hf : fractions = 2 ^ 52 := by decide
  simp only [Nat.shiftLeft_eq, Nat.one_mul, hf]
  constructor
  · rw [Nat.sub_mul, ← hsplit]
    have : 2 ^ n.log2 * 2 ^ (52 - n.log2) ≤ n * 2 ^ (52 - n.log2) := Nat.mul_le_mul_right _ hlow
    omega
  · rw [← hsplit]
    apply Nat.mul_lt_mul_of_pos_right _ (Nat.two_pow_pos _)
    rw [Nat.pow_succ] at hhigh
    omega

/-- An exact pattern has `n` times `2 ^ scale` units of 2^-149. -/
theorem units_exact (s : Bool) {n scale : Nat} (hlog : n.log2 ≤ 52)
    (hscale : n.log2 + scale ≤ 1172) :
    (ofMagnitude s (exactMagnitude n scale)).units = n <<< (925 + scale) ∧
      (ofMagnitude s (exactMagnitude n scale)).isFinite = true ∧
      (ofMagnitude s (exactMagnitude n scale)).negative = s := by
  by_cases hn : n = 0
  · subst hn
    obtain ⟨hneg, hexp, hfrac⟩ :=
      fields_ofMagnitude (s := s) (show 0 < signWeight by decide)
    simp [exactMagnitude, units, isFinite, significand, hneg, hexp, hfrac]
  · obtain ⟨hsum, hlt⟩ := leading_fraction hn hlog
    have hmag : exactMagnitude n scale = (n.log2 + scale + 874) * fractions
        + (n - 1 <<< n.log2) <<< (52 - n.log2) := by simp [exactMagnitude, hn]
    generalize (n - 1 <<< n.log2) <<< (52 - n.log2) = f at hsum hlt hmag
    generalize hlead : n.log2 = lead at hlog hscale hsum hmag
    obtain ⟨hneg, hexp, hfrac⟩ :=
      fields_ofParts (s := s) (show lead + scale + 874 < exponents by rw [exponents]; omega) hlt
    rw [← hmag] at hneg hexp hfrac
    refine ⟨?_, ?_, hneg⟩
    · simp only [units, significand, Binary64.scale, hexp, hfrac, hsum]
      rw [if_neg (by omega), ← Nat.shiftLeft_add]
      congr 1
      omega
    · simp only [isFinite, hexp, bne_iff_ne, ne_eq]
      omega

theorem log2_le {n k : Nat} (h : n < 2 ^ (k + 1)) : n.log2 ≤ k := by
  by_cases hn : n = 0
  · simp [hn]
  · exact Nat.lt_succ_iff.mp ((Nat.log2_lt hn).mpr h)

end Binary64

namespace Binary32

theorem toNat_bits (x : Binary32) :
    x.bits.toNat = (if x.negative then signWeight else 0)
      + (x.exponent * fractions + x.fraction) := by
  have hlt := x.bits.isLt
  simp only [negative, exponent, fraction, BitVec.msb_eq_decide]
  simp only [signWeight, fractions, exponents] at *
  split <;> simp_all <;> omega

/-- A pattern is its sign, its exponent and its fraction. -/
theorem ofMagnitude_self (x : Binary32) :
    ofMagnitude x.negative (x.exponent * fractions + x.fraction) = x := by
  cases x with
  | mk bits =>
      have h := toNat_bits ⟨bits⟩
      rw [ofMagnitude, ← h]
      simp

theorem exponent_le (x : Binary32) : x.exponent ≤ 255 := by
  simp only [exponent, exponents]
  omega

theorem fraction_lt (x : Binary32) : x.fraction < fractions := by
  simp only [fraction, fractions]
  omega

theorem fields_ofMagnitude {s : Bool} {m : Nat} (hm : m < signWeight) :
    (ofMagnitude s m).negative = s ∧ (ofMagnitude s m).exponent = m / fractions ∧
      (ofMagnitude s m).fraction = m % fractions :=
  fields_ofNat (e := 8) (f := 23) s hm

/-! ### Widening and rounding back -/

theorem log2_shiftLeft {n : Nat} (hn : n ≠ 0) (k : Nat) : (n <<< k).log2 = n.log2 + k := by
  have hlow : 2 ^ n.log2 ≤ n := Nat.log2_self_le hn
  have hhigh : n < 2 ^ (n.log2 + 1) := Nat.lt_log2_self
  have hne : n <<< k ≠ 0 := by simp [Nat.shiftLeft_eq, hn]
  rw [Nat.log2_eq_iff hne, Nat.shiftLeft_eq, Nat.pow_add, Nat.add_right_comm, Nat.pow_add]
  exact ⟨Nat.mul_le_mul_right _ hlow, Nat.mul_lt_mul_of_pos_right hhigh (Nat.two_pow_pos _)⟩

/-- Rounding to a multiple of the divisor leaves the multiple. -/
theorem roundHalfEven_mul {n d : Nat} (hd : 0 < d) : roundHalfEven (n * d) d = n := by
  simp [roundHalfEven, Nat.mul_div_cancel _ hd, hd]

/-- A finite number lies on the grid that it is rounded to. -/
theorem nearestMagnitude_units {x : Binary32} (hfin : x.isFinite = true) :
    nearestMagnitude (x.significand <<< (925 + x.scale))
      = x.exponent * fractions + x.fraction := by
  have hexp : x.exponent ≤ 254 := by
    have := x.exponent_le
    simp only [isFinite, bne_iff_ne, ne_eq] at hfin
    omega
  have hfrac := x.fraction_lt
  by_cases hs : x.significand = 0
  · have hzero : x.exponent = 0 ∧ x.fraction = 0 := by
      simp only [significand, fractions] at hs
      split at hs <;> omega
    simp [hs, hzero.1, hzero.2, nearestMagnitude, roundHalfEven]
  · have hlog := log2_shiftLeft hs (925 + x.scale)
    -- The spacing at this magnitude is the weight of the significand's last bit.
    have hshift : x.significand.log2 + (925 + x.scale) - 948 = x.scale ∧
        x.scale * fractions + x.significand = x.exponent * fractions + x.fraction := by
      by_cases he : x.exponent = 0
      · have hlow : x.significand.log2 ≤ 22 := by
          apply Binary64.log2_le
          simp only [significand, he, if_true]
          exact hfrac
        have hscale : x.scale = 0 := by simp [scale, he]
        have hsig : x.significand = x.fraction := by simp [significand, he]
        rw [hscale, he]
        omega
      · have hlead : x.significand.log2 = 23 := by
          rw [Nat.log2_eq_iff hs]
          simp only [significand, he, if_false]
          simp only [fractions] at hfrac ⊢
          omega
        have hscale : x.scale = x.exponent - 1 := rfl
        have hsig : x.significand = fractions + x.fraction := by simp [significand, he]
        rw [hlead, hscale, hsig]
        simp only [fractions]
        omega
    simp only [nearestMagnitude, hlog, hshift.1]
    rw [Nat.shiftLeft_eq, Nat.shiftLeft_eq, Nat.one_mul, roundHalfEven_mul (Nat.two_pow_pos _),
      hshift.2]
    simp only [infinity, fractions] at hfrac ⊢
    omega

/-- The leading bit of the significand of a finite number lies below 2^24. -/
theorem significand_log2_le (x : Binary32) : x.significand.log2 ≤ 23 := by
  apply Binary64.log2_le
  have hfrac := x.fraction_lt
  simp only [significand, fractions] at hfrac ⊢
  split <;> omega

/-- A magnitude from infinity on widens to the same kind of pattern and comes back. -/
theorem ofBinary64_special {s : Bool} {p : Nat} (hp : p < Binary64.fractions) :
    ofBinary64 (Binary64.ofMagnitude s (Binary64.infinity + p)) =
      if p = 0 then ofMagnitude s infinity
      else ofMagnitude s (infinity + (p >>> 29 ||| quiet)) := by
  obtain ⟨hneg, hexp, hfrac⟩ :=
    Binary64.fields_ofParts (s := s) (show 2047 < Binary64.exponents by decide) hp
  rw [show 2047 * Binary64.fractions = Binary64.infinity by decide] at hneg hexp hfrac
  simp only [ofBinary64, Binary64.isFinite, Binary64.isNaN, hneg, hexp, hfrac]
  by_cases h0 : p = 0 <;> simp [h0]

/-- Widening a number that is no NaN and rounding it back is the identity. -/
theorem ofBinary64_ofBinary32 {x : Binary32} (h : x.isNaN = false) :
    ofBinary64 (Binary64.ofBinary32 x) = x := by
  by_cases hfin : x.isFinite = true
  · have hlog := x.significand_log2_le
    have hexp : x.scale ≤ 254 := by
      have := x.exponent_le
      simp only [scale]
      omega
    obtain ⟨hunits, hfin64, hneg⟩ :=
      Binary64.units_exact x.negative (show x.significand.log2 ≤ 52 by omega)
        (show x.significand.log2 + x.scale ≤ 1172 by omega)
    simp only [Binary64.ofBinary32, hfin, if_true]
    simp only [ofBinary64, hfin64, hunits, hneg, if_true]
    rw [nearestMagnitude_units hfin, ofMagnitude_self]
  · have hexp : x.exponent = 255 := by simpa [isFinite] using hfin
    have hfrac : x.fraction = 0 := by simpa [isNaN, hexp] using h
    have hself := ofMagnitude_self x
    rw [hexp, hfrac] at hself
    simp only [Binary64.ofBinary32, hfin, h, if_false, Bool.false_eq_true]
    exact (ofBinary64_special (s := x.negative) (p := 0) (by decide)).trans hself

/-- A NaN that is already quiet survives being widened and rounded back too. -/
theorem ofBinary64_ofBinary32_of_quiet {x : Binary32} (h : x.isNaN = true)
    (hquiet : x.fraction ||| quiet = x.fraction) :
    ofBinary64 (Binary64.ofBinary32 x) = x := by
  obtain ⟨hexp, hfrac⟩ : x.exponent = 255 ∧ x.fraction ≠ 0 := by simpa [isNaN] using h
  have hfin : x.isFinite = false := by simp [isFinite, hexp]
  have hlt := x.fraction_lt
  have hpayload : x.fraction <<< 29 ||| Binary64.quiet = x.fraction <<< 29 := by
    conv_rhs => rw [← hquiet]
    rw [Nat.shiftLeft_or_distrib]
    rfl
  have hback : (x.fraction <<< 29) >>> 29 = x.fraction := by
    rw [Nat.shiftLeft_shiftRight]
  have hself := ofMagnitude_self x
  simp only [Binary64.ofBinary32, hfin, h, if_true, if_false, Bool.false_eq_true, hpayload]
  rw [ofBinary64_special, if_neg, hback, hquiet]
  · rw [hexp] at hself
    exact hself
  · simp [Nat.shiftLeft_eq, hfrac]
  · simp only [Nat.shiftLeft_eq, Binary64.fractions]
    simp only [fractions] at hlt
    omega

theorem infinity_add_lt {p : Nat} (hp : p < fractions) : infinity + p < signWeight := by
  simp only [infinity, fractions, signWeight] at hp ⊢
  omega

theorem isNaN_ofMagnitude_le {s : Bool} {m : Nat} (h : m ≤ infinity) :
    (ofMagnitude s m).isNaN = false := by
  have hm : m < signWeight := Nat.lt_of_le_of_lt h (by decide)
  obtain ⟨-, hexp, hfrac⟩ := fields_ofMagnitude (s := s) hm
  simp only [isNaN, hexp, hfrac]
  simp only [infinity, fractions] at h ⊢
  simp
  omega

/-- A rounded number is either no NaN or a quiet one. -/
theorem ofBinary64_cases (x : Binary64) :
    (ofBinary64 x).isNaN = false ∨
      (ofBinary64 x).isNaN = true ∧
        (ofBinary64 x).fraction ||| quiet = (ofBinary64 x).fraction := by
  by_cases hfin : x.isFinite = true
  · left
    rw [ofBinary64, if_pos hfin]
    exact isNaN_ofMagnitude_le (Nat.min_le_right _ _)
  · by_cases hnan : x.isNaN = true
    · right
      have hp : x.fraction >>> 29 ||| quiet < fractions := by
        have hlt : x.fraction < 2 ^ 52 := by
          simp only [Binary64.fraction, Binary64.fractions]
          omega
        apply Nat.or_lt_two_pow (n := 23)
        · rw [Nat.shiftRight_eq_div_pow]
          omega
        · decide
      have hm := infinity_add_lt hp
      obtain ⟨-, hexp, hfrac⟩ := fields_ofMagnitude (s := x.negative) hm
      have hfields : (infinity + (x.fraction >>> 29 ||| quiet)) / fractions = 255 ∧
          (infinity + (x.fraction >>> 29 ||| quiet)) % fractions = x.fraction >>> 29 ||| quiet := by
        simp only [infinity, fractions] at hp ⊢
        omega
      have hne : x.fraction >>> 29 ||| quiet ≠ 0 := by
        intro h0
        have := Nat.or_eq_zero_iff.mp h0
        exact absurd this.2 (by decide)
      rw [ofBinary64, if_neg hfin, if_pos hnan, isNaN, hexp, hfrac, hfields.1, hfields.2,
        Nat.or_assoc, Nat.or_self]
      simp [hne]
    · left
      rw [ofBinary64, if_neg hfin, if_neg hnan]
      exact isNaN_ofMagnitude_le (Nat.le_refl _)

/-- Rounding what rounding gave changes nothing. -/
theorem ofBinary64_idem (x : Binary64) :
    ofBinary64 (Binary64.ofBinary32 (ofBinary64 x)) = ofBinary64 x := by
  rcases ofBinary64_cases x with h | ⟨h, hquiet⟩
  · exact ofBinary64_ofBinary32 h
  · exact ofBinary64_ofBinary32_of_quiet h hquiet

end Binary32

end FieldStore
