import Lockstep.Document.Datum

/-!
# Numbers of JSON texts

A number without fraction and exponent is an integer as long as 64 bits hold it,
with or without a sign; negative zero is no integer.  Every other number is a
64-bit floating-point value, computed in two roundings.

The digits are gathered in a significand of 64 bits: digits that no longer fit
are dropped, and those of them that stand before the point count as powers of
ten.  The significand is rounded to floating point, and multiplied or divided by
the power of ten, itself rounded, which rounds a second time.  A result beyond
the largest finite value is unreadable.
-/

namespace Lockstep.Json

open Lockstep.Decimal

/-- The parts of a number as it is written. -/
structure NumberText where
  negative : Bool
  whole : List Char
  /-- The digits after the point, if there is one. -/
  fraction : List Char
  /-- The exponent, if there is one. -/
  exponent : Option Int

/-- Takes the digits that keep a significand below `2 ^ 64`; also gives how many
it took and how many are left. -/
def gather (significand : Nat) : List Char → Nat × Nat × Nat
  | [] => (significand, 0, 0)
  | c :: rest =>
    let longer := 10 * significand + (Text.digitValue? c).getD 0
    if longer < UInt64.size then
      let (result, taken, left) := gather longer rest
      (result, taken + 1, left)
    else (significand, 0, rest.length + 1)

/-- The product of a magnitude with a power of ten, each rounded. -/
def timesTen (x : Binary64) (power : Nat) : Binary64 :=
  match x.decode.magnitude, (Binary64.nearest false (Nat.pow 10 power) 1).decode.magnitude with
  | .finite m q, .finite n p =>
    let (num, den) := scaleTwo (m * n) 1 (q + p)
    Binary64.nearest false num den
  | _, _ => x

/-- The quotient of a magnitude by a power of ten, each rounded. -/
def overTen (x : Binary64) (power : Nat) : Binary64 :=
  match x.decode.magnitude, (Binary64.nearest false (Nat.pow 10 power) 1).decode.magnitude with
  | .finite m q, .finite n p =>
    let (num, den) := scaleTwo m n (q - p)
    Binary64.nearest false num den
  | _, _ => x

/-- The greatest power of ten that a 64-bit value can hold. -/
def greatestPower : Nat := 308

/-- A magnitude divided by a power of ten of any size, in as many divisions as
it takes. -/
def shrink (x : Binary64) (power : Nat) : Binary64 :=
  if power ≤ greatestPower then overTen x power
  else if x.bits = 0 then x
  else shrink (overTen x greatestPower) (power - greatestPower)
termination_by power
decreasing_by
  simp only [greatestPower] at *
  omega

/-- The magnitude of a significand times a power of ten, if it is finite. -/
def scale? (significand : Nat) (exponent : Int) : Option Binary64 :=
  let x := Binary64.ofInt significand
  if exponent < 0 then some (shrink x exponent.natAbs)
  else if exponent.toNat ≤ greatestPower then
    let product := timesTen x exponent.toNat
    if product.isInfinite then none else some product
  else if significand = 0 then some x
  else none

/-- The value of a number as it is written. -/
def NumberText.value (t : NumberText) : Datum :=
  let (wholePart, _, dropped) := gather 0 t.whole
  match t.fraction, t.exponent, dropped with
  | [], none, 0 =>
    if ¬ t.negative then .int wholePart
    else if wholePart = 0 ∨ -(wholePart : Int) < Int64.minValue.toInt then
      .double (Binary64.ofInt wholePart).neg
    else .int (-wholePart)
  | _, _, _ =>
    let (significand, places, _) := gather wholePart t.fraction
    match scale? significand ((dropped : Int) - places + t.exponent.getD 0) with
    | none => .unreadable
    | some x => .double (if t.negative then x.neg else x)

/-! ## Syntax -/

/-- The exponent at the start of a text, if there is one: nothing if it is begun
and not completed. -/
def scanExponent (cs : List Char) : Option (Option Int × List Char) :=
  match cs with
  | 'e' :: rest | 'E' :: rest =>
    let (negative, rest) :=
      match rest with
      | '-' :: rest => (true, rest)
      | '+' :: rest => (false, rest)
      | rest => (false, rest)
    let (digits, rest) := rest.span Char.isDigit
    if digits.isEmpty then none
    else
      let magnitude : Int := Text.valueIn 10 digits
      some (some (if negative then -magnitude else magnitude), rest)
  | _ => some (none, cs)

/-- The fraction at the start of a text, empty if there is none: nothing if there
is a point without a digit after it. -/
def scanFraction (cs : List Char) : Option (List Char × List Char) :=
  match cs with
  | '.' :: rest =>
    let (digits, rest) := rest.span Char.isDigit
    if digits.isEmpty then none else some (digits, rest)
  | _ => some ([], cs)

/-- The number at the start of a text, and what follows it. -/
def scanNumber (cs : List Char) : Option (NumberText × List Char) := do
  let (negative, cs) :=
    match cs with
    | '-' :: rest => (true, rest)
    | _ => (false, cs)
  let (whole, cs) := cs.span Char.isDigit
  if whole.isEmpty ∨ (whole.head? = some '0' ∧ whole.length ≠ 1) then none
  let (fraction, cs) ← scanFraction cs
  let (exponent, cs) ← scanExponent cs
  return (⟨negative, whole, fraction, exponent⟩, cs)

end Lockstep.Json
