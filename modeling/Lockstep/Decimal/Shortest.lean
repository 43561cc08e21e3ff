import Lockstep.Decimal.Binary

/-!
# The shortest decimal that reads back

A finite value stands for all reals that round to it: an interval around it
that reaches half-way to each neighbour, and contains its two ends when the
significand is even.  The shortest decimal is the one with the fewest digits in
that interval, and of two with as many digits the nearer.

`shortest` tries one digit, then two, and so on.  On the grid of each number of
digits only the two neighbours of the value can be in the interval first, and
both are compared exactly.  The one case that arithmetic leaves open, two
candidates at the same distance, is a decision of the format that is written,
as is everything about points, zeros and exponents: see `Layout`.
-/

namespace Lockstep.Decimal

/-- Which of two equally near decimals is written. -/
inductive Tie where
  | up
  | even

/-- The decimal `coefficient · 10 ^ exponent`. -/
structure Digits where
  coefficient : Nat
  exponent : Int

/-- The number `k` with `10 ^ (k - 1) ≤ num / den < 10 ^ k`, for a positive
quotient. -/
def decade (num den : Nat) : Int :=
  if den ≤ num then (Text.decimal (num / den)).length
  else
    let places := (Text.decimal (den / num)).length
    if den ≤ num * Nat.pow 10 (places - 1) then 2 - places else 1 - places

/-- A decimal without zeros at the end of its coefficient. -/
def Digits.strip (d : Digits) : Digits :=
  let zeros := ((Text.decimal d.coefficient).reverse.takeWhile (· = '0')).length
  if d.coefficient = 0 then d else ⟨d.coefficient / Nat.pow 10 zeros, d.exponent + zeros⟩

/-- The candidate with a given number of digits, if one of them reads back.
The value is `4 · m` units; `below` and `above` are the distances to the ends of
the interval in the same units, and `closed` says whether the ends belong to
it. -/
def candidate? (tie : Tie) (value below above unitNum unitDen : Nat) (closed : Bool)
    (exponent : Int) : Option Digits :=
  let (num, den) := scaleTen unitNum unitDen (-exponent)
  let lower := value * num / den
  let rest := value * num % den
  let within (distance reach : Nat) : Bool :=
    distance < reach || (closed && distance == reach)
  let down := within rest (below * num)
  let up := within (den - rest) (above * num)
  let upper := lower + 1
  match down, up with
  | false, false => none
  | true, false => some ⟨lower, exponent⟩
  | false, true => some ⟨upper, exponent⟩
  | true, true =>
    if 2 * rest < den then some ⟨lower, exponent⟩
    else if den < 2 * rest then some ⟨upper, exponent⟩
    else
      match tie with
      | .up => some ⟨upper, exponent⟩
      | .even => some ⟨if lower % 2 = 0 then lower else upper, exponent⟩

/-- The shortest decimal of the value `m · 2 ^ q` of a format, for positive
`m`. -/
def Format.shortest (f : Format) (tie : Tie) (m : Nat) (q : Int) : Digits :=
  let (unitNum, unitDen) := scaleTwo 1 4 q
  let narrow := m = f.fractions ∧ f.leastExponent < q
  let below := if narrow then 1 else 2
  let top := decade (4 * m * unitNum) unitDen
  let rec search (tried : Nat) : Nat → Digits
    | 0 => ⟨m, q⟩
    | left + 1 =>
      match candidate? tie (4 * m) below 2 unitNum unitDen (m % 2 = 0)
          (top - (tried + 1 : Nat)) with
      | some d => d.strip
      | none => search (tried + 1) left
  search 0 20

/-- How the digits of a floating-point value are set out: which way ties go,
the decimal exponents from the first to the last of which are written
positionally, and whether a plus stands before a positive exponent.  A positional
number has at least one digit after its point; any other has an exponent, and a
point only if it has more than one digit. -/
structure Layout where
  tie : Tie
  first : Int
  last : Int
  plus : Bool

/-- The digits of a positive decimal, set out. -/
def Layout.write (layout : Layout) (d : Digits) : List Char :=
  let digits := Text.decimal d.coefficient
  let places : Int := digits.length
  let exponent := d.exponent + places - 1
  if layout.first ≤ exponent ∧ exponent ≤ layout.last then
    if exponent < 0 then
      ['0', '.'] ++ List.replicate (-exponent - 1).toNat '0' ++ digits
    else if places ≤ exponent + 1 then
      digits ++ List.replicate (exponent + 1 - places).toNat '0' ++ ['.', '0']
    else
      digits.take (exponent + 1).toNat ++ '.' :: digits.drop (exponent + 1).toNat
  else
    let significand :=
      match digits with
      | d :: rest@(_ :: _) => d :: '.' :: rest
      | short => short
    let sign := if exponent < 0 then ['-'] else if layout.plus then ['+'] else []
    significand ++ 'e' :: sign ++ Text.decimal exponent.natAbs

/-- The text of a decoded value, or nothing for a NaN and the infinities. -/
def Format.finiteText? (f : Format) (layout : Layout) (d : Decoded) : Option (List Char) :=
  let sign := if d.negative then ['-'] else []
  match d.magnitude with
  | .finite 0 _ => some (sign ++ ['0', '.', '0'])
  | .finite m q => some (sign ++ layout.write (f.shortest layout.tie m q))
  | _ => none

/-- The text of a decoded value with names for what is no number; a NaN has no
sign. -/
def Format.text (f : Format) (layout : Layout) (d : Decoded) : String :=
  match f.finiteText? layout d with
  | some cs => String.ofList cs
  | none =>
    match d.magnitude with
    | .nan => "NaN"
    | _ => if d.negative then "-inf" else "inf"

/-- Literals in instructions and messages: positional from a ten-thousandth up
to, but not including, ten to the sixteenth. -/
def literalLayout : Layout := ⟨.up, -4, 15, false⟩

def Binary32.literal (x : Binary32) : String :=
  Format.single.text literalLayout x.decode

def Binary64.literal (x : Binary64) : String :=
  Format.double.text literalLayout x.decode

end Lockstep.Decimal
