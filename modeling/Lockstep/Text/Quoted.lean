import Lockstep.Text.Blank
import Lockstep.Text.Digits

/-!
# Quoted texts

How a text or a single character is shown inside quotes, so that the result is
one visible line: the quote, the backslash and a handful of controls have short
escapes, every other character that does not print is written by its code
point in lower-case hexadecimal, and all else stands for itself.

A character does not print when it is a control, a format character, a
separator other than the plain space, of private use, a noncharacter, or a
mark that combines with the character before it.
-/

namespace Lockstep.Text

/-- Runs of characters that are not printed as themselves. -/
def unprintableRuns : List (Nat × Nat) :=
  [ -- controls, and the soft hyphen and no-break space of Latin-1
    (0x00, 0x1F), (0x7F, 0xA0), (0xAD, 0xAD),
    -- combining marks
    (0x0300, 0x036F), (0x0483, 0x0489), (0x0591, 0x05BD), (0x0610, 0x061A),
    (0x064B, 0x065F), (0x1AB0, 0x1ACE), (0x1DC0, 0x1DFF), (0x20D0, 0x20F0),
    (0x302A, 0x302F), (0x3099, 0x309A), (0xFE00, 0xFE0F), (0xFE20, 0xFE2F),
    -- separators and format characters
    (0x0600, 0x0605), (0x061C, 0x061C), (0x1680, 0x1680), (0x180B, 0x180F),
    (0x2000, 0x200F), (0x2028, 0x202F), (0x205F, 0x206F), (0x3000, 0x3000),
    (0xFEFF, 0xFEFF), (0xFFF9, 0xFFFB), (0xE0001, 0xE007F), (0xE0100, 0xE01EF),
    -- private use and noncharacters
    (0xE000, 0xF8FF), (0xFDD0, 0xFDEF), (0xFFFE, 0xFFFF), (0x1FFFE, 0x1FFFF),
    (0x2FFFE, 0x2FFFF), (0xF0000, 0x10FFFF)]

/-- A character that is shown by its code point. -/
def isUnprintable (c : Char) : Bool := inRuns unprintableRuns c

/-- One character as it stands between two of the given quotes. -/
def escapeChar (quote c : Char) : List Char :=
  if c = '\x00' then ['\\', '0']
  else if c = '\t' then ['\\', 't']
  else if c = '\n' then ['\\', 'n']
  else if c = '\r' then ['\\', 'r']
  else if c = '\\' then ['\\', '\\']
  else if c = quote then ['\\', c]
  else if isUnprintable c then
    ['\\', 'u', '{'] ++ hexadecimal c.toNat ++ ['}']
  else [c]

/-- A text between double quotes; a single quote in it stands for itself. -/
def quoteText (s : String) : String :=
  String.ofList ('"' :: s.toList.flatMap (escapeChar '"') ++ ['"'])

/-- A character between single quotes; a double quote stands for itself. -/
def quoteChar (c : Char) : String :=
  String.ofList ('\'' :: escapeChar '\'' c ++ ['\''])

/-- A 16-bit code unit as a character literal, or as its four hexadecimal
digits when it is half of a surrogate pair and so no character at all. -/
def quoteUnit (unit : UInt16) : String :=
  if h : unit.toNat.isValidChar then quoteChar (Char.ofNatAux unit.toNat h)
  else String.ofList (['\\', 'u'] ++ padZeros 4 (hexadecimal unit.toNat))

end Lockstep.Text
