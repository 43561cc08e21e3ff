import Mathlib.Tactic.FieldSimp
import Lockstep.Proofs.Decimal.PowersOfTwo

/-!
# Integers that a significand can hold

An integer has a significand of `p` bits if all its bits but `p` are zeros at its end
(`FitsSignificand`).  Up to the greatest exponent, the integers that are the number of a
value with 32 bits are those that have one of 24 (`Binary32.exists_number?_iff`).  So an odd
integer above `2 ^ 24` is not such a number, however small it is for the format.
-/

namespace Lockstep.Decimal

/-- An integer with a significand of some bits. -/
def FitsSignificand (p : Nat) (n : Int) : Prop := ∃ m e : Nat, m < 2 ^ p ∧ n.natAbs = m * 2 ^ e

theorem fitsSignificand_of_lt {p : Nat} {n : Int} (h : n.natAbs < 2 ^ p) : FitsSignificand p n :=
  ⟨n.natAbs, 0, h, (Nat.mul_one _).symm⟩

/-- An odd integer has no zeros at its end. -/
theorem fitsSignificand_iff_of_odd {p : Nat} {n : Int} (h : n.natAbs % 2 = 1) :
    FitsSignificand p n ↔ n.natAbs < 2 ^ p := by
  constructor
  · rintro ⟨m, e, hm, hn⟩
    cases e with
    | zero => rwa [hn, pow_zero, Nat.mul_one]
    | succ e =>
        rw [pow_succ, ← Nat.mul_assoc] at hn
        omega
  · exact fitsSignificand_of_lt

/-! ## The numbers of values fit -/

/-- The significand of a value has one bit more than its fraction. -/
theorem Format.significand_lt {f : Format} {bits m : Nat} {q : Int}
    (h : (f.decode bits).magnitude = .finite m q) : m < 2 * f.fractions := by
  have hfraction : bits % f.fractions < f.fractions := Nat.mod_lt _ (Nat.two_pow_pos _)
  simp only [Format.decode] at h
  split at h
  · split at h <;> cases h
  · split at h
    · obtain ⟨rfl, -⟩ := Magnitude.finite.inj h
      omega
    · obtain ⟨rfl, -⟩ := Magnitude.finite.inj h
      omega

theorem Decoded.natAbs_of_number? {d : Decoded} {n : Int} (h : d.number? = some (.ofRat n)) :
    ∃ m q, d.magnitude = .finite m q ∧ (n.natAbs : ℚ) = m * 2 ^ q := by
  obtain ⟨m, q, hmagnitude, hnumber⟩ := finite_of_number? h
  refine ⟨m, q, hmagnitude, ?_⟩
  have hnonneg : (0 : ℚ) ≤ m * 2 ^ q := by positivity
  rw [Nat.cast_natAbs, Int.cast_abs, ← hnumber]
  split
  · exact (abs_neg _).trans (abs_of_nonneg hnonneg)
  · exact abs_of_nonneg hnonneg

namespace Binary32

theorem fitsSignificand_of_number? {x : Binary32} {n : Int}
    (h : x.decode.number? = some (.ofRat n)) : FitsSignificand 24 n := by
  obtain ⟨m, q, hmagnitude, hnumber⟩ := Decoded.natAbs_of_number? h
  have hm : m < 2 ^ 24 := Format.significand_lt (f := .single) hmagnitude
  rcases Int.le_total 0 q with hq | hq
  · obtain ⟨e, rfl⟩ := Int.eq_ofNat_of_zero_le hq
    exact ⟨m, e, hm, by exact_mod_cast hnumber⟩
  · -- bits after the point make an integer no greater than the significand
    have hscale : (2 : ℚ) ^ q ≤ 1 := zpow_le_one_of_nonpos₀ one_le_two hq
    have hle : (n.natAbs : ℚ) ≤ m := by
      rw [hnumber]
      exact mul_le_of_le_one_right (Nat.cast_nonneg m) hscale
    exact fitsSignificand_of_lt (lt_of_le_of_lt (Nat.cast_le.mp hle) hm)

/-! ## What fits is the number of a value -/

/-- The value with a sign, an exponent and a fraction. -/
theorem decode_normal (negative : Bool) {exponent fraction : Nat} (hpos : 0 < exponent)
    (hlt : exponent < 255) (hfraction : fraction < 8388608) :
    (Binary32.mk (UInt32.ofNat (Format.single.withSign negative
      (exponent * 8388608 + fraction)))).decode =
        ⟨negative, .finite (8388608 + fraction) (exponent - 150)⟩ := by
  have hfractions : Format.single.fractions = 8388608 := rfl
  have hexponents : Format.single.exponents = 256 := rfl
  have hsignBit : Format.single.signBit = 2147483648 := rfl
  have hleast : Format.single.leastExponent = -149 := rfl
  have hwidth : Format.single.withSign negative (exponent * 8388608 + fraction) < 4294967296 := by
    unfold Format.withSign
    rw [hsignBit]
    split <;> omega
  unfold decode
  rw [UInt32.toNat_ofNat_of_lt' hwidth]
  -- the parts of the bits, once for each sign
  have hparts : ∀ bits sign : Nat, bits = sign * 2147483648 + (exponent * 8388608 + fraction) →
      bits % 8388608 = fraction ∧ bits / 8388608 % 256 = exponent ∧
        bits / 2147483648 = sign := by
    intro bits sign hbits
    omega
  have hsign : Format.single.withSign negative (exponent * 8388608 + fraction) =
      negative.toNat * 2147483648 + (exponent * 8388608 + fraction) := by
    unfold Format.withSign
    rw [hsignBit]
    cases negative <;> simp
  obtain ⟨hlow, hmiddle, hhigh⟩ := hparts _ _ hsign
  have hlast : exponent ≠ 256 - 1 := by omega
  have hfirst : exponent ≠ 0 := by omega
  have hexponent : (-149 : Int) + (exponent - 1 : Nat) = exponent - 150 := by omega
  unfold Format.decode
  simp only [hfractions, hexponents, hsignBit, hleast, hlow, hmiddle, hhigh, hlast, hfirst,
    hexponent, if_false]
  cases negative <;> rfl

/-- With zeros at its end, a positive integer of at most 24 bits has 24 of them. -/
theorem exists_normal {m : Nat} (hpos : m ≠ 0) (hlt : m < 2 ^ 24) :
    ∃ k ≤ 23, ∃ fraction < 8388608, 2 ^ k ≤ m ∧ 8388608 + fraction = m * 2 ^ (23 - k) := by
  have hk : Nat.log2 m < 24 := (Nat.log2_lt hpos).mpr hlt
  have hle : 2 ^ Nat.log2 m ≤ m := Nat.log2_self_le hpos
  have hlt' : m < 2 ^ (Nat.log2 m + 1) := Nat.lt_log2_self
  generalize Nat.log2 m = k at hk hle hlt'
  have hlow : 2 ^ 23 ≤ m * 2 ^ (23 - k) := by
    calc 2 ^ 23 = 2 ^ k * 2 ^ (23 - k) := by rw [← pow_add, Nat.add_sub_of_le (by omega)]
      _ ≤ m * 2 ^ (23 - k) := Nat.mul_le_mul_right _ hle
  have hhigh : m * 2 ^ (23 - k) < 2 ^ 24 := by
    calc m * 2 ^ (23 - k) < 2 ^ (k + 1) * 2 ^ (23 - k) :=
          Nat.mul_lt_mul_of_pos_right hlt' (Nat.two_pow_pos _)
      _ = 2 ^ 24 := by rw [← pow_add, show k + 1 + (23 - k) = 24 by omega]
  exact ⟨k, by omega, m * 2 ^ (23 - k) - 8388608, by omega, hle, by omega⟩

theorem exists_number?_of_fitsSignificand {n : Int} (hrange : n.natAbs < 2 ^ 128)
    (h : FitsSignificand 24 n) : ∃ x : Binary32, x.decode.number? = some (.ofRat n) := by
  obtain ⟨m, e, hm, hn⟩ := h
  by_cases hzero : m = 0
  · have hn0 : n = 0 := by
      rw [hzero, Nat.zero_mul] at hn
      exact Int.natAbs_eq_zero.mp hn
    refine ⟨⟨0⟩, ?_⟩
    rw [hn0, Int.cast_zero]
    exact Decoded.number?_eq_zero_iff.mpr rfl
  · obtain ⟨k, hk, fraction, hfraction, hle, hsignificand⟩ := exists_normal hzero hm
    have hexponent : e + k < 128 := by
      apply (Nat.pow_lt_pow_iff_right (a := 2) (by omega)).mp
      calc 2 ^ (e + k) = 2 ^ k * 2 ^ e := by rw [Nat.add_comm, pow_add]
        _ ≤ m * 2 ^ e := Nat.mul_le_mul_right _ hle
        _ < 2 ^ 128 := hn ▸ hrange
    have hmagnitude : ((8388608 + fraction : Nat) : ℚ) * 2 ^ (((e + k + 127 : Nat) : Int) - 150) =
        |(n : ℚ)| := by
      have hsum : ((e + k + 127 : Nat) : Int) - 150 = (e : Int) - (23 - k : Nat) := by omega
      rw [← Int.cast_abs, ← Nat.cast_natAbs, hsum, hsignificand, hn, zpow_sub₀ two_ne_zero,
        zpow_natCast, zpow_natCast]
      push_cast
      field_simp
    have hdecode := decode_normal (decide (n < 0)) (Nat.succ_pos _)
      (show e + k + 127 < 255 by omega) hfraction
    refine ⟨_, (congrArg Decoded.number? hdecode).trans ?_⟩
    unfold Decoded.number?
    simp only [hmagnitude]
    by_cases hneg : n < 0
    · simp [hneg, abs_of_neg (Int.cast_lt_zero.mpr hneg)]
    · simp [hneg, abs_of_nonneg (Int.cast_nonneg (not_lt.mp hneg))]

/-- Among the integers in range, the numbers of values are those with a significand of 24
bits. -/
theorem exists_number?_iff {n : Int} (hrange : n.natAbs < 2 ^ 128) :
    (∃ x : Binary32, x.decode.number? = some (.ofRat n)) ↔ FitsSignificand 24 n := by
  constructor
  · rintro ⟨x, h⟩
    exact fitsSignificand_of_number? h
  · exact exists_number?_of_fitsSignificand hrange

end Binary32

end Lockstep.Decimal
