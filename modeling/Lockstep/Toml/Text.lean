import Lockstep.Text.Digits
import Lockstep.Toml.Scan

/-!
# Names, strings and blanks of TOML texts

The four forms of strings: basic ones with escapes and literal ones without,
each on one line or over several.  In a string over several lines a line break
is a single line feed, one directly after the opening is dropped, and up to two
quotes may stand before the closing three.
-/

namespace Lockstep.Toml

open Scan

/-! ## Blanks -/

def isBlankInLine (c : Char) : Bool := c = ' ' || c = '\t'

def blanks : Scan Unit := discard (run isBlankInLine)

def lineBreak : Scan Unit := char '\n' <|> word ['\r', '\n']

/-- A character that text can contain: no control but the tab. -/
def isPlain (c : Char) : Bool := c = '\t' || (0x20 ≤ c.toNat && c.toNat ≠ 0x7F)

/-- A comment, without the end of its line. -/
def comment : Scan Unit := do
  char '#'
  discard (run isPlain)

def blankLines : Scan Unit :=
  discard (many (discard (satisfy isBlankInLine) <|> lineBreak <|> comment))

/-- What may follow a statement on its line, and the end of the line or of the
text. -/
def lineEnd : Scan Unit := do
  blanks
  discard (opt comment)
  lineBreak <|> atEnd

/-! ## Escapes -/

/-- The character with a code point given by a number of hexadecimal digits. -/
def codePoint (count : Nat) : Scan Char := do
  let n := Text.valueIn 16 (← exactly (Text.isDigitIn 16) count)
  if h : n.isValidChar then return Char.ofNatAux n h
  failure

def escape : Scan Char := do
  char '\\'
  match ← satisfy fun _ => true with
  | 'b' => return '\x08'
  | 't' => return '\t'
  | 'n' => return '\n'
  | 'f' => return '\x0c'
  | 'r' => return '\r'
  | '"' => return '"'
  | '\\' => return '\\'
  | 'u' => codePoint 4
  | 'U' => codePoint 8
  | _ => failure

/-- A backslash at the end of a line: it joins the line to the next character
that is not blank. -/
def continuation : Scan Unit := do
  char '\\'
  blanks
  lineBreak
  discard (many (discard (satisfy isBlankInLine) <|> lineBreak))

/-! ## Strings -/

def basicString : Scan String := do
  char '"'
  let cs ← many (satisfy (fun c => isPlain c && c ≠ '"' && c ≠ '\\') <|> escape)
  char '"'
  return String.ofList cs

def literalString : Scan String := do
  char '\''
  let cs ← run fun c => isPlain c && c ≠ '\''
  char '\''
  return String.ofList cs

/-- Fewer than three quotes that stand inside a string over several lines. -/
def innerQuotes (quote : Char) : Scan (List Char) := do
  let quotes ← someRun (· = quote)
  if 3 ≤ quotes.length then failure
  return quotes

/-- A string over several lines, given its quote and its other parts. -/
def longString (quote : Char) (part : Scan (List Char)) : Scan String := do
  word [quote, quote, quote]
  discard (opt lineBreak)
  let body ← many (part <|> innerQuotes quote)
  let quotes ← run (· = quote)
  if quotes.length < 3 ∨ 5 < quotes.length then failure
  return String.ofList (body.flatten ++ quotes.drop 3)

def innerBreak : Scan (List Char) := do
  lineBreak
  return ['\n']

def longBasicString : Scan String :=
  longString '"' (someRun (fun c => isPlain c && c ≠ '"' && c ≠ '\\') <|> innerBreak <|> (do
    continuation
    return []) <|> (do
    return [← escape]))

def longLiteralString : Scan String :=
  longString '\'' (someRun (fun c => isPlain c && c ≠ '\'') <|> innerBreak)

def string : Scan String := do
  match ← ahead with
  | '"' :: '"' :: '"' :: _ => longBasicString
  | '\'' :: '\'' :: '\'' :: _ => longLiteralString
  | '"' :: _ => basicString
  | _ => literalString

/-! ## Names -/

/-- A character of a name without quotes. -/
def isNameChar (c : Char) : Bool := c.isAlphanum || c = '_' || c = '-'

def simpleName : Scan String :=
  basicString <|> literalString <|> (do
    return String.ofList (← someRun isNameChar))

/-- How many names a dotted name can have, and how deep values can nest. -/
def nestingLimit : Nat := 80

def dottedName : Scan (List String) := do
  let names ← separated (do
      blanks
      let name ← simpleName
      blanks
      return name) (char '.')
  if nestingLimit ≤ names.length then failure
  return names

end Lockstep.Toml
