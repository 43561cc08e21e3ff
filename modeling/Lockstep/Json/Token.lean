import Lockstep.Json.Number

/-!
# Tokens of JSON texts

A JSON text as a list of tokens.  A string is scanned in two steps: first its
characters and escapes are separated, then pairs of escaped 16-bit units are
joined.  A unit without its other half makes the string unreadable, but not the
text ill-formed.
-/

namespace Lockstep.Json

inductive Token where
  | beginObject
  | endObject
  | beginArray
  | endArray
  | colon
  | comma
  /-- A literal name, a number: anything but a string that is a value by
  itself. -/
  | atom (value : Datum)
  /-- A string, or nothing if it is unreadable. -/
  | string (value : Option String)

/-- What a string is made of: characters and escaped 16-bit units. -/
inductive Piece where
  | char (c : Char)
  | unit (n : Nat)

/-! ## Strings -/

/-- The character of an escape with one letter. -/
def escaped? : Char → Option Char
  | '"' => some '"'
  | '\\' => some '\\'
  | '/' => some '/'
  | 'b' => some '\x08'
  | 'f' => some '\x0c'
  | 'n' => some '\n'
  | 'r' => some '\r'
  | 't' => some '\t'
  | _ => none

/-- The pieces up to the closing quote, latest first, and what follows it. -/
def scanPieces (pieces : List Piece) : List Char → Option (List Piece × List Char)
  | [] => none
  | '"' :: rest => some (pieces, rest)
  | '\\' :: 'u' :: a :: b :: c :: d :: rest =>
    let digits := [a, b, c, d]
    if digits.all (Text.isDigitIn 16) then
      scanPieces (.unit (Text.valueIn 16 digits) :: pieces) rest
    else none
  | '\\' :: c :: rest =>
    match escaped? c with
    | some e => scanPieces (.char e :: pieces) rest
    | none => none
  | c :: rest =>
    if c.toNat < 0x20 ∨ c = '\\' then none else scanPieces (.char c :: pieces) rest

/-- Whether a unit is the first half of a pair. -/
def isHigh (n : Nat) : Bool := 0xD800 ≤ n && n < 0xDC00

/-- Whether a unit is the second half of a pair. -/
def isLow (n : Nat) : Bool := 0xDC00 ≤ n && n < 0xE000

/-- The characters of some pieces, or nothing if one is half of a pair. -/
def joinPieces : List Piece → Option (List Char)
  | [] => some []
  | .char c :: rest => (joinPieces rest).map (c :: ·)
  | .unit high :: .unit low :: rest =>
    if isHigh high then
      if isLow low then
        (joinPieces rest).map
          (Char.ofNat (0x10000 + (high - 0xD800) * 0x400 + (low - 0xDC00)) :: ·)
      else none
    else if isLow high then none
    else (joinPieces (.unit low :: rest)).map (Char.ofNat high :: ·)
  | .unit n :: rest =>
    if isHigh n || isLow n then none else (joinPieces rest).map (Char.ofNat n :: ·)

/-! ## Tokens -/

/-- The four characters that separate tokens. -/
def isSpace (c : Char) : Bool := c = ' ' || c = '\t' || c = '\n' || c = '\r'

/-- The token at the start of a text, and what follows it. -/
def scanToken : List Char → Option (Token × List Char)
  | '\x7b' :: rest => some (.beginObject, rest)
  | '\x7d' :: rest => some (.endObject, rest)
  | '[' :: rest => some (.beginArray, rest)
  | ']' :: rest => some (.endArray, rest)
  | ':' :: rest => some (.colon, rest)
  | ',' :: rest => some (.comma, rest)
  | 'n' :: 'u' :: 'l' :: 'l' :: rest => some (.atom .null, rest)
  | 't' :: 'r' :: 'u' :: 'e' :: rest => some (.atom (.bool true), rest)
  | 'f' :: 'a' :: 'l' :: 's' :: 'e' :: rest => some (.atom (.bool false), rest)
  | '"' :: rest =>
    (scanPieces [] rest).map fun (pieces, rest) =>
      (.string ((joinPieces pieces.reverse).map String.ofList), rest)
  | cs => (scanNumber cs).map fun (number, rest) => (.atom number.value, rest)

/-- The tokens of a text; `fuel` bounds their number. -/
def scanTokens : Nat → List Char → Option (List Token)
  | 0, _ => none
  | fuel + 1, cs =>
    match cs.dropWhile isSpace with
    | [] => some []
    | rest =>
      match scanToken rest with
      | none => none
      | some (token, rest) => (scanTokens fuel rest).map (token :: ·)

def tokens? (cs : List Char) : Option (List Token) := scanTokens (cs.length + 1) cs

end Lockstep.Json
