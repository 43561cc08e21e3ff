import Mathlib.Algebra.Order.Field.Rat
import Mathlib.Algebra.Order.Monoid.WithTop
import Mathlib.Order.Compare
import Lockstep.Decimal.Binary

/-!
# Comparing floating-point values

A floating-point value is a rational number, one of the two infinities, or no number at all
(`Decoded.number?`), and two values are compared as what they are (`Decoded.compare`).  What
is no number is less than everything, itself included.

So a comparison with zero tells zeros from all else, and does not tell what is no number
from what is less than zero (`compare_eq_eq_iff_of_isZero`).  By its bits a value is zero
exactly if all of them are zero but perhaps the sign (`decode_isZero_iff`).
-/

namespace Lockstep.Decimal

/-! ## Values as numbers -/

/-- The rational numbers with an infinity at each end. -/
abbrev Extended := WithBot (WithTop ℚ)

/-- A rational number as one of these. -/
def Extended.ofRat (q : ℚ) : Extended := WithBot.some (WithTop.some q)

theorem Extended.ofRat_inj {p q : ℚ} : ofRat p = ofRat q ↔ p = q := by
  unfold ofRat
  rw [WithBot.coe_inj, WithTop.coe_inj]

namespace Decoded

def isNaN (x : Decoded) : Bool :=
  match x.magnitude with
  | .nan => true
  | _ => false

def isZero (x : Decoded) : Bool :=
  match x.magnitude with
  | .finite 0 _ => true
  | _ => false

/-- The number that a value is; the infinities are below and above all others. -/
def number? (x : Decoded) : Option Extended :=
  match x.magnitude with
  | .nan => none
  | .infinite => some (if x.negative then ⊥ else WithBot.some ⊤)
  | .finite m q => some (.ofRat (if x.negative then -(m * 2 ^ q) else m * 2 ^ q))

/-- How a value compares with another: as a number, and as less if either is no number. -/
def compare (x y : Decoded) : Ordering :=
  match x.number?, y.number? with
  | some a, some b => cmp a b
  | _, _ => .lt

/-- Two values compare as equal exactly if they are the same number. -/
theorem compare_eq_eq_iff {x y : Decoded} :
    x.compare y = .eq ↔ ∃ a, x.number? = some a ∧ y.number? = some a := by
  unfold compare
  split
  · next a b hx hy =>
    rw [cmp_eq_eq_iff, hx, hy]
    constructor
    · rintro rfl
      exact ⟨a, rfl, rfl⟩
    · rintro ⟨n, ha, hb⟩
      exact Option.some.inj (ha.trans hb.symm)
  · next hnone =>
    constructor
    · intro h
      cases h
    · rintro ⟨a, hx, hy⟩
      exact absurd hy (hnone a a hx)

theorem number?_eq_zero_iff {x : Decoded} : x.number? = some (.ofRat 0) ↔ x.isZero = true := by
  obtain ⟨negative, magnitude⟩ := x
  cases magnitude with
  | nan => simp [number?, isZero]
  | infinite =>
      have hne : (Decoded.mk negative .infinite).number? ≠ some (.ofRat 0) := by
        cases negative with
        | false => exact fun h => WithTop.top_ne_coe (WithBot.coe_injective (Option.some.inj h))
        | true => exact fun h => WithBot.bot_ne_coe (Option.some.inj h)
      simp [hne, isZero]
  | finite m q =>
      have hnumber : (Decoded.mk negative (.finite m q)).number? = some (.ofRat 0) ↔
          (if negative then -((m : ℚ) * 2 ^ q) else (m : ℚ) * 2 ^ q) = 0 := by
        unfold number?
        rw [Option.some.injEq, Extended.ofRat_inj]
      have hmagnitude : (m : ℚ) * 2 ^ q = 0 ↔ m = 0 := by
        rw [mul_eq_zero, or_iff_left (zpow_ne_zero q two_ne_zero), Nat.cast_eq_zero]
      have hzero : (Decoded.mk negative (.finite m q)).isZero = true ↔ m = 0 := by
        cases m <;> simp [isZero]
      rw [hnumber, hzero, ← hmagnitude]
      cases negative with
      | false => exact Iff.rfl
      | true => exact neg_eq_zero

/-- Only zeros compare as equal to a zero. -/
theorem compare_eq_eq_iff_of_isZero {x y : Decoded} (hy : y.isZero = true) :
    x.compare y = .eq ↔ x.isZero = true := by
  rw [compare_eq_eq_iff, number?_eq_zero_iff.mpr hy, ← number?_eq_zero_iff]
  constructor
  · rintro ⟨a, hx, ha⟩
    rw [hx, ha]
  · intro hx
    exact ⟨_, hx, rfl⟩

/-- To compare as other than equal to a zero is to be none. -/
theorem decide_compare_ne_eq {x y : Decoded} (hy : y.isZero = true) :
    decide (x.compare y ≠ .eq) = !x.isZero := by
  cases hx : x.isZero with
  | false => simp [compare_eq_eq_iff_of_isZero hy, hx]
  | true => simp [compare_eq_eq_iff_of_isZero hy, hx]

end Decoded

/-! ## Zeros by their bits -/

/-- A value is zero if all its bits are zero but the sign. -/
theorem decode_isZero_iff {f : Format} (hf : 1 < f.exponents) (bits : Nat) :
    (f.decode bits).isZero = true ↔ bits % f.signBit = 0 := by
  have hpos : 0 < f.fractions := Nat.two_pow_pos _
  have hsplit : bits % f.signBit =
      bits % f.fractions + f.fractions * (bits / f.fractions % f.exponents) := by
    rw [Format.signBit, Nat.mul_comm, Nat.mod_mul]
  have hzero : bits % f.signBit = 0 ↔
      bits % f.fractions = 0 ∧ bits / f.fractions % f.exponents = 0 := by
    rw [hsplit, Nat.add_eq_zero_iff, Nat.mul_eq_zero]
    simp [hpos.ne']
  rw [hzero]
  unfold Format.decode Decoded.isZero
  dsimp only
  by_cases hlast : bits / f.fractions % f.exponents = f.exponents - 1
  · have hne : f.exponents - 1 ≠ 0 := by omega
    by_cases hfraction : bits % f.fractions = 0 <;> simp [hlast, hfraction, hne]
  · by_cases hfirst : bits / f.fractions % f.exponents = 0
    · have hne : 0 ≠ f.exponents - 1 := by omega
      cases hfraction : bits % f.fractions <;> simp [hfirst, hne]
    · have hnormal : f.fractions + bits % f.fractions ≠ 0 := by omega
      obtain ⟨m, hm⟩ := Nat.exists_eq_succ_of_ne_zero hnormal
      simp [hlast, hfirst, hm]

/-- The two zeros, one for each sign. -/
def Binary32.isZero (x : Binary32) : Bool := x.bits = 0 || x.bits = 0x80000000

/-- The two zeros, one for each sign. -/
def Binary64.isZero (x : Binary64) : Bool := x.bits = 0 || x.bits = 0x8000000000000000

theorem Binary32.isZero_decode (x : Binary32) : x.decode.isZero = x.isZero := by
  have hlt := x.bits.toNat_lt
  have hsign : Format.single.signBit = 2147483648 := rfl
  have hbits : x.decode.isZero = true ↔ x.bits.toNat % 2147483648 = 0 :=
    hsign ▸ decode_isZero_iff (f := .single) (by decide) x.bits.toNat
  rw [Bool.eq_iff_iff, hbits, isZero, Bool.or_eq_true, decide_eq_true_eq, decide_eq_true_eq,
    ← UInt32.toNat_inj, ← UInt32.toNat_inj]
  show _ ↔ x.bits.toNat = 0 ∨ x.bits.toNat = 2147483648
  omega

theorem Binary64.isZero_decode (x : Binary64) : x.decode.isZero = x.isZero := by
  have hlt := x.bits.toNat_lt
  have hsign : Format.double.signBit = 9223372036854775808 := rfl
  have hbits : x.decode.isZero = true ↔ x.bits.toNat % 9223372036854775808 = 0 :=
    hsign ▸ decode_isZero_iff (f := .double) (by decide) x.bits.toNat
  rw [Bool.eq_iff_iff, hbits, isZero, Bool.or_eq_true, decide_eq_true_eq, decide_eq_true_eq,
    ← UInt64.toNat_inj, ← UInt64.toNat_inj]
  show _ ↔ x.bits.toNat = 0 ∨ x.bits.toNat = 9223372036854775808
  omega

end Lockstep.Decimal
