import Lockstep.Document.Datum
import Lockstep.Toml.Scan

/-!
# Numbers and moments of TOML texts

Integers of 64 bits with a sign, in base ten, sixteen, eight or two; decimal
fractions, which round once to the nearest value; the names of infinity and of
what is no number; and dates and times.

Underscores may stand between digits.  A fraction too large for the format is
refused when it is positive, and is minus infinity when it is negative.  A date or
time is a record with one field of a reserved name, which holds its text in a
single form: a `T` between the date and the time, a fraction of a second in at
most nine digits without zeros at the end, and a distance of zero from universal
time without a minus.
-/

namespace Lockstep.Toml

open Scan Lockstep.Decimal

/-- Digits that satisfy a test, with single underscores between them. -/
def digits (test : Char → Bool) : Scan (List Char) := do
  let first ← satisfy test
  let rest ← many ((do
    char '_'
    satisfy test) <|> satisfy test)
  return first :: rest

/-- A sign: whether there is one, and whether it is a minus. -/
def sign : Scan Bool := do
  match ← opt (satisfy fun c => c = '+' || c = '-') with
  | some c => return c = '-'
  | none => return false

/-- The digits of a decimal integer: no zero in front of another digit. -/
def decimalDigits : Scan (List Char) := (do
    let first ← satisfy fun c => c.isDigit && c ≠ '0'
    let rest ← opt (do
      discard (opt (char '_'))
      digits Char.isDigit)
    return first :: rest.getD []) <|> exactly Char.isDigit 1

def bounded (n : Int) : Scan Datum := do
  if Int64.minValue.toInt ≤ n ∧ n ≤ Int64.maxValue.toInt then return .int n
  failure

/-- An integer with a prefix for its base. -/
def basedInteger (letter : Char) (base : Nat) : Scan Datum := do
  char '0'
  char letter
  bounded (Text.valueIn base (← digits (Text.isDigitIn base)))

def decimalInteger : Scan Datum := do
  let negative ← sign
  let n : Int := Text.valueIn 10 (← decimalDigits)
  bounded (if negative then -n else n)

def exponent : Scan Int := do
  discard (satisfy fun c => c = 'e' || c = 'E')
  let negative ← sign
  let n : Int := Text.valueIn 10 (← digits Char.isDigit)
  return if negative then -n else n

/-- A number with a fraction, an exponent, or both. -/
def fraction : Scan Datum := do
  let negative ← sign
  let whole ← decimalDigits
  let places ← opt (do
    char '.'
    digits Char.isDigit)
  let power ← opt exponent
  if places.isNone ∧ power.isNone then failure
  let places := places.getD []
  let x := Numeral.nearest
    { negative
      digits := Text.valueIn 10 (whole ++ places)
      exponent := power.getD 0 - places.length }
  if x.isInfinite ∧ ¬ negative then failure
  return .double x

/-- Infinity, or what is no number, by name. -/
def namedFraction : Scan Datum := do
  let negative ← sign
  (do
    word ['i', 'n', 'f']
    return .double (.infinity negative)) <|> (do
    word ['n', 'a', 'n']
    return .double (.nan negative))

/-! ## Moments -/

/-- A number with a fixed count of digits, from one bound to another. -/
def field (count least greatest : Nat) : Scan Nat := do
  let n := Text.valueIn 10 (← exactly Char.isDigit count)
  if least ≤ n ∧ n ≤ greatest then return n
  failure

def daysIn (year month : Nat) : Nat :=
  if month = 2 then
    if year % 4 = 0 ∧ (year % 100 ≠ 0 ∨ year % 400 = 0) then 29 else 28
  else if month ∈ [4, 6, 9, 11] then 30
  else 31

def twoDigits (n : Nat) : List Char := Text.padZeros 2 (Text.decimal n)

def date : Scan (List Char) := do
  let year ← field 4 0 9999
  char '-'
  let month ← field 2 1 12
  char '-'
  let day ← field 2 1 (daysIn year month)
  return Text.padZeros 4 (Text.decimal year) ++ '-' :: twoDigits month ++ '-' :: twoDigits day

/-- A fraction of a second, of which nine digits count; nothing is left of one
that is zero. -/
def secondFraction : Scan (List Char) := do
  char '.'
  let digits := (← someRun Char.isDigit).take 9
  let kept := (digits.reverse.dropWhile (· = '0')).reverse
  return if kept.isEmpty then [] else '.' :: kept

def time : Scan (List Char) := do
  let hour ← field 2 0 23
  char ':'
  let minute ← field 2 0 59
  char ':'
  let second ← field 2 0 60
  let fraction ← opt secondFraction
  return twoDigits hour ++ ':' :: twoDigits minute ++ ':' :: twoDigits second ++
    fraction.getD []

def offset : Scan (List Char) :=
  (do
    discard (satisfy fun c => c = 'Z' || c = 'z')
    return ['Z']) <|> (do
    let sign ← satisfy fun c => c = '+' || c = '-'
    let hours ← field 2 0 23
    char ':'
    let minutes ← field 2 0 59
    let sign := if hours = 0 ∧ minutes = 0 then '+' else sign
    return sign :: twoDigits hours ++ ':' :: twoDigits minutes)

/-- A time of day after a date, with its distance from universal time. -/
def timeAfterDate : Scan (List Char) := do
  discard (satisfy fun c => c = 'T' || c = 't' || c = ' ')
  let time ← time
  let offset ← opt offset
  return 'T' :: time ++ offset.getD []

/-- The reserved name of the field that holds a date or a time. -/
def momentName : String := "$__toml_private_datetime"

def moment : Scan Datum := do
  let text ← (do
    let date ← date
    let time ← opt timeAfterDate
    return date ++ time.getD []) <|> time
  return .record .tomlValue [(momentName, .text (String.ofList text))]

/-- Anything that begins with a digit, a sign, or the name of a number. -/
def number : Scan Datum :=
  moment <|> fraction <|> namedFraction <|> basedInteger 'x' 16 <|> basedInteger 'o' 8 <|>
    basedInteger 'b' 2 <|> decimalInteger

end Lockstep.Toml
