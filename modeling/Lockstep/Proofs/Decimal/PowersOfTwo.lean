import Mathlib.Algebra.Order.Field.Power
import Mathlib.Tactic.Linarith
import Mathlib.Tactic.Positivity
import Lockstep.Proofs.Decimal.Comparison

/-!
# Powers of two by their bits

A power of two that is not too small for a format is the number of one value only: the bits
of its fraction are zero, those of its exponent are determined, and it has no sign
(`bits_of_number?_eq_zpow`).  So to compare as equal with 1 or 2 is to have the bits of 1 or
2, and no value that is no number does.
-/

namespace Lockstep.Decimal

/-- A significand with `p + 1` bits makes a power of two only if it is one itself. -/
theorem significand_of_mul_zpow {p m : Nat} {q k : Int} (hle : 2 ^ p ≤ m) (hlt : m < 2 ^ (p + 1))
    (h : (m : ℚ) * 2 ^ q = 2 ^ k) : m = 2 ^ p ∧ k = p + q := by
  have hpos : (0 : ℚ) < 2 ^ q := zpow_pos two_pos q
  have hshift : ∀ n : Nat, ((2 ^ n : Nat) : ℚ) * 2 ^ q = 2 ^ ((n : Int) + q) := by
    intro n
    rw [Nat.cast_pow, Nat.cast_ofNat, zpow_add₀ two_ne_zero, zpow_natCast]
  have hlow : (2 : ℚ) ^ ((p : Int) + q) ≤ 2 ^ k := by
    rw [← h, ← hshift]
    exact mul_le_mul_of_nonneg_right (Nat.cast_le.mpr hle) hpos.le
  have hhigh : (2 : ℚ) ^ k < 2 ^ (((p + 1 : Nat) : Int) + q) := by
    rw [← h, ← hshift]
    exact mul_lt_mul_of_pos_right (Nat.cast_lt.mpr hlt) hpos
  have hk : k = p + q := by
    have hp := (zpow_le_zpow_iff_right₀ one_lt_two).mp hlow
    have hp' := (zpow_lt_zpow_iff_right₀ one_lt_two).mp hhigh
    push_cast at hp'
    omega
  refine ⟨?_, hk⟩
  rw [hk, ← hshift] at h
  exact Nat.cast_injective (mul_right_cancel₀ hpos.ne' h)

/-- A significand with `p` bits or fewer makes only smaller powers of two. -/
theorem lt_of_mul_zpow {p m : Nat} {q k : Int} (hlt : m < 2 ^ p) (h : (m : ℚ) * 2 ^ q = 2 ^ k) :
    k < p + q := by
  have hpos : (0 : ℚ) < 2 ^ q := zpow_pos two_pos q
  have hhigh : (2 : ℚ) ^ k < 2 ^ ((p : Int) + q) := by
    rw [← h, zpow_add₀ two_ne_zero, zpow_natCast]
    exact mul_lt_mul_of_pos_right (by exact_mod_cast hlt) hpos
  exact (zpow_lt_zpow_iff_right₀ one_lt_two).mp hhigh

/-- A value that is a rational number is finite. -/
theorem Decoded.finite_of_number? {d : Decoded} {r : ℚ} (h : d.number? = some (.ofRat r)) :
    ∃ m q, d.magnitude = .finite m q ∧
      (if d.negative then -((m : ℚ) * 2 ^ q) else (m : ℚ) * 2 ^ q) = r := by
  obtain ⟨negative, magnitude⟩ := d
  cases magnitude with
  | nan => cases h
  | infinite =>
      cases negative with
      | false => exact absurd (WithBot.coe_injective (Option.some.inj h)) WithTop.top_ne_coe
      | true => exact absurd (Option.some.inj h) WithBot.bot_ne_coe
  | finite m q => exact ⟨m, q, rfl, Extended.ofRat_inj.mp (Option.some.inj h)⟩

/-- A power of two is positive, so a value that is one is finite and has no sign. -/
theorem Decoded.finite_of_number?_eq_zpow {d : Decoded} {k : Int}
    (h : d.number? = some (.ofRat (2 ^ k))) :
    ∃ m q, d = ⟨false, .finite m q⟩ ∧ (m : ℚ) * 2 ^ q = 2 ^ k := by
  obtain ⟨m, q, hmagnitude, hnumber⟩ := finite_of_number? h
  obtain ⟨negative, magnitude⟩ := d
  obtain rfl : magnitude = .finite m q := hmagnitude
  cases negative with
  | false => exact ⟨m, q, rfl, hnumber⟩
  | true =>
      have hpos : (0 : ℚ) < 2 ^ k := zpow_pos two_pos k
      have hnonneg : (0 : ℚ) ≤ m * 2 ^ q := by positivity
      simp only [if_true] at hnumber
      linarith

/-- What the bits of a finite value without a sign are: a subnormal has no more than the bits
of a fraction, and a normal value has one bit before these and its exponent above them. -/
theorem decode_eq_finite_cases {f : Format} {bits m : Nat} {q : Int}
    (hbits : bits < 2 * f.signBit) (h : f.decode bits = ⟨false, .finite m q⟩) :
    (m < f.fractions ∧ q = f.leastExponent) ∨
      ∃ e : Nat, q = f.leastExponent + e ∧ f.fractions ≤ m ∧ m < 2 * f.fractions ∧
        bits + f.fractions = (e + 1) * f.fractions + m := by
  have hfractions : 0 < f.fractions := Nat.two_pow_pos _
  have hfraction : bits % f.fractions < f.fractions := Nat.mod_lt _ hfractions
  have hsign : bits < f.signBit := by
    have hnegative := congrArg Decoded.negative h
    simp only [Format.decode, decide_eq_false_iff_not] at hnegative
    have hquotient : bits / f.signBit < 2 := Nat.div_lt_of_lt_mul (by rwa [Nat.mul_comm])
    have hzero : bits / f.signBit = 0 := by
      generalize bits / f.signBit = quotient at hnegative hquotient
      omega
    have hpositive : 0 < f.signBit := by omega
    exact (Nat.div_eq_zero_iff_lt hpositive).mp hzero
  have hexponent : bits / f.fractions % f.exponents = bits / f.fractions :=
    Nat.mod_eq_of_lt (Nat.div_lt_of_lt_mul (by rwa [Nat.mul_comm]))
  have hsplit : f.fractions * (bits / f.fractions) + bits % f.fractions = bits :=
    Nat.div_add_mod _ _
  have hmagnitude := congrArg Decoded.magnitude h
  simp only [Format.decode, hexponent] at hmagnitude
  split at hmagnitude
  · split at hmagnitude <;> cases hmagnitude
  · split at hmagnitude
    · obtain ⟨rfl, rfl⟩ := Magnitude.finite.inj hmagnitude
      exact .inl ⟨hfraction, rfl⟩
    · next hnonzero =>
      obtain ⟨rfl, rfl⟩ := Magnitude.finite.inj hmagnitude
      obtain ⟨e, he⟩ := Nat.exists_eq_add_one_of_ne_zero hnonzero
      refine .inr ⟨e, by rw [he, Nat.add_sub_cancel], by omega, by omega, ?_⟩
      rw [he, Nat.mul_comm] at hsplit
      omega

/-- A power of two, unless it is among the least numbers of a format, is the number of the
value with its exponent and no other bits. -/
theorem bits_of_number?_eq_zpow {f : Format} {bits e : Nat} (hbits : bits < 2 * f.signBit)
    (h : (f.decode bits).number? = some (.ofRat (2 ^ (f.fractionBits + f.leastExponent + e)))) :
    bits = (e + 1) * f.fractions := by
  obtain ⟨m, q, hdecode, hnumber⟩ := Decoded.finite_of_number?_eq_zpow h
  rcases decode_eq_finite_cases hbits hdecode with ⟨hlt, rfl⟩ | ⟨e', rfl, hle, hlt, hsum⟩
  · have hsmall := lt_of_mul_zpow hlt hnumber
    omega
  · have hlt' : m < 2 ^ (f.fractionBits + 1) := by
      rw [Nat.pow_succ, Nat.mul_comm]
      exact hlt
    obtain ⟨hm, hk⟩ := significand_of_mul_zpow hle hlt' hnumber
    have hm' : m = f.fractions := hm
    obtain rfl : e' = e := by omega
    omega

/-- A value with an exponent and no bits of a fraction is a power of two. -/
theorem number?_of_decode {f : Format} {bits e : Nat}
    (h : f.decode bits = ⟨false, .finite f.fractions (f.leastExponent + e)⟩) :
    (f.decode bits).number? = some (.ofRat (2 ^ (f.fractionBits + f.leastExponent + e))) := by
  have hpower : (2 : ℚ) ^ (f.fractionBits + f.leastExponent + e : Int) =
      (f.fractions : ℚ) * 2 ^ (f.leastExponent + e : Int) := by
    rw [add_assoc, zpow_add₀ two_ne_zero, zpow_natCast]
    exact congrArg (· * _) (Nat.cast_pow 2 f.fractionBits).symm
  rw [h, hpower]
  rfl

/-- To compare as equal with such a value is to have its bits. -/
theorem compare_eq_eq_iff_of_decode {f : Format} {bits bits' e : Nat}
    (hbits : bits < 2 * f.signBit) (hbits' : bits' < 2 * f.signBit)
    (h : f.decode bits' = ⟨false, .finite f.fractions (f.leastExponent + e)⟩) :
    (f.decode bits).compare (f.decode bits') = .eq ↔ bits = bits' := by
  have hnumber := number?_of_decode h
  rw [Decoded.compare_eq_eq_iff]
  constructor
  · rintro ⟨a, ha, ha'⟩
    rw [hnumber] at ha'
    obtain rfl := Option.some.inj ha'
    rw [bits_of_number?_eq_zpow hbits ha, bits_of_number?_eq_zpow hbits' hnumber]
  · rintro rfl
    exact ⟨_, hnumber, hnumber⟩

/-! ## One and two -/

theorem Binary32.compare_one_iff (x : Binary32) :
    x.decode.compare (ofInt 1).decode = .eq ↔ x.bits = 0x3F800000 := by
  rw [← UInt32.toNat_inj]
  exact compare_eq_eq_iff_of_decode (f := .single) (e := 126) x.bits.toNat_lt (by decide) rfl

theorem Binary32.compare_two_iff (x : Binary32) :
    x.decode.compare (ofInt 2).decode = .eq ↔ x.bits = 0x40000000 := by
  rw [← UInt32.toNat_inj]
  exact compare_eq_eq_iff_of_decode (f := .single) (e := 127) x.bits.toNat_lt (by decide) rfl

theorem Binary64.compare_one_iff (x : Binary64) :
    x.decode.compare (ofInt 1).decode = .eq ↔ x.bits = 0x3FF0000000000000 := by
  rw [← UInt64.toNat_inj]
  exact compare_eq_eq_iff_of_decode (f := .double) (e := 1022) x.bits.toNat_lt (by decide) rfl

end Lockstep.Decimal
