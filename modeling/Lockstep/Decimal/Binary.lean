import Lockstep.Text.Digits

/-!
# Binary floating-point values by their bits

The two interchange formats with 32 and 64 bits.  A finite value is
`± m · 2 ^ q` with natural `m` and integer `q`, and everything here is exact
arithmetic on `m` and `q`: a value is never a machine number, only its bits.

* `Format.decode` reads bits as a sign and a magnitude.
* `Format.nearest` gives the bits nearest to a quotient of naturals, halves
  going to the even neighbour and what is too large to infinity.

The bits of a magnitude are counted from zero in the order of the values they
stand for, so that the carry of a significand that rounds up to the next power
of two needs no case of its own.
-/

namespace Lockstep.Decimal

/-- A binary interchange format: how many bits hold the fraction and how many
the exponent. -/
structure Format where
  fractionBits : Nat
  exponentBits : Nat

def Format.single : Format := ⟨23, 8⟩

def Format.double : Format := ⟨52, 11⟩

/-- A magnitude as the bits give it: finite ones as `m · 2 ^ q`. -/
inductive Magnitude where
  | nan
  | infinite
  | finite (m : Nat) (q : Int)

/-- A decoded value: whether the sign bit is set, and the magnitude. -/
structure Decoded where
  negative : Bool
  magnitude : Magnitude

namespace Format

/-- How many fractions there are to an exponent. -/
def fractions (f : Format) : Nat := Nat.pow 2 f.fractionBits

/-- How many values the bits of the exponent can take. -/
def exponents (f : Format) : Nat := Nat.pow 2 f.exponentBits

/-- The exponent `q` of the subnormal values, which is also the least. -/
def leastExponent (f : Format) : Int := 2 - (f.exponents / 2 : Nat) - f.fractionBits

def infinity (f : Format) : Nat := (f.exponents - 1) * f.fractions

/-- The bits of the quiet NaN without a sign. -/
def quietNaN (f : Format) : Nat := f.infinity + f.fractions / 2

def signBit (f : Format) : Nat := f.exponents * f.fractions

def decode (f : Format) (bits : Nat) : Decoded :=
  let fraction := bits % f.fractions
  let exponent := bits / f.fractions % f.exponents
  { negative := bits / f.signBit % 2 = 1
    magnitude :=
      if exponent = f.exponents - 1 then
        if fraction = 0 then .infinite else .nan
      else if exponent = 0 then .finite fraction f.leastExponent
      else .finite (f.fractions + fraction)
        (f.leastExponent + (exponent - 1 : Nat)) }

end Format

/-- The quotient rounded to the nearest natural, halves to the even one. -/
def roundHalfEven (num den : Nat) : Nat :=
  let quotient := num / den
  let twice := 2 * (num % den)
  if twice > den ∨ (twice = den ∧ quotient % 2 = 1) then quotient + 1 else quotient

/-- The quotient `num · 2 ^ q / den` as a pair of naturals. -/
def scaleTwo (num den : Nat) (q : Int) : Nat × Nat :=
  if 0 ≤ q then (num * Nat.pow 2 q.toNat, den) else (num, den * Nat.pow 2 (-q).toNat)

/-- The quotient `num · 10 ^ e / den` as a pair of naturals. -/
def scaleTen (num den : Nat) (e : Int) : Nat × Nat :=
  if 0 ≤ e then (num * Nat.pow 10 e.toNat, den) else (num, den * Nat.pow 10 (-e).toNat)

namespace Format

/-- The exponent of the power of two just below a positive quotient. -/
def floorLog (num den : Nat) : Int :=
  let guess : Int := (Nat.log2 num : Int) - Nat.log2 den
  let (scaled, unit) := scaleTwo num den (-guess)
  if unit ≤ scaled then guess else guess - 1

/-- The bits, without a sign, of the value nearest to `num / den`. -/
def nearest (f : Format) (num den : Nat) : Nat :=
  if num = 0 then 0
  else
    let q := max f.leastExponent (floorLog num den - f.fractionBits)
    let (scaled, unit) := scaleTwo num den (-q)
    let m := roundHalfEven scaled unit
    min f.infinity ((q - f.leastExponent).toNat * f.fractions + m)

/-- Sets the sign bit of a magnitude's bits. -/
def withSign (f : Format) (negative : Bool) (bits : Nat) : Nat :=
  if negative then f.signBit + bits else bits

end Format

structure Binary32 where
  bits : UInt32
  deriving DecidableEq

structure Binary64 where
  bits : UInt64
  deriving DecidableEq

namespace Binary32

def decode (x : Binary32) : Decoded := Format.single.decode x.bits.toNat

def nearest (negative : Bool) (num den : Nat) : Binary32 :=
  ⟨UInt32.ofNat (Format.single.withSign negative (Format.single.nearest num den))⟩

def ofInt (n : Int) : Binary32 := nearest (n < 0) n.natAbs 1

end Binary32

namespace Binary64

def decode (x : Binary64) : Decoded := Format.double.decode x.bits.toNat

def nearest (negative : Bool) (num den : Nat) : Binary64 :=
  ⟨UInt64.ofNat (Format.double.withSign negative (Format.double.nearest num den))⟩

def ofInt (n : Int) : Binary64 := nearest (n < 0) n.natAbs 1

def infinity (negative : Bool) : Binary64 :=
  ⟨UInt64.ofNat (Format.double.withSign negative Format.double.infinity)⟩

def nan (negative : Bool) : Binary64 :=
  ⟨UInt64.ofNat (Format.double.withSign negative Format.double.quietNaN)⟩

def neg (x : Binary64) : Binary64 := ⟨x.bits ^^^ UInt64.ofNat Format.double.signBit⟩

def isInfinite (x : Binary64) : Bool :=
  match x.decode.magnitude with
  | .infinite => true
  | _ => false

/-- The 32-bit value nearest to a 64-bit one; a NaN stays a NaN. -/
def toBinary32 (x : Binary64) : Binary32 :=
  let d := x.decode
  match d.magnitude with
  | .nan => ⟨UInt32.ofNat (Format.single.withSign d.negative Format.single.quietNaN)⟩
  | .infinite => ⟨UInt32.ofNat (Format.single.withSign d.negative Format.single.infinity)⟩
  | .finite m q =>
    let (num, den) := scaleTwo m 1 q
    Binary32.nearest d.negative num den

end Binary64

/-- A number in positional notation: `± digits · 10 ^ exponent`. -/
structure Numeral where
  negative : Bool
  digits : Nat
  exponent : Int

/-- The 64-bit value nearest to a numeral.  Far outside the range of the format
the answer is an infinity or a zero, and no power of ten is computed. -/
def Numeral.nearest (n : Numeral) : Binary64 :=
  let places : Int := (Text.decimal n.digits).length
  if n.digits = 0 ∨ n.exponent + places < -400 then Binary64.nearest n.negative 0 1
  else if 400 < n.exponent + places then Binary64.infinity n.negative
  else
    let (num, den) := scaleTen n.digits 1 n.exponent
    Binary64.nearest n.negative num den

end Lockstep.Decimal
