import Lockstep.Decimal.Shortest
import Lockstep.Document.Datum
import Lockstep.Text.Quoted

/-!
# Writing JSON

A datum as a JSON text, on one line or laid out with two blanks for each level.
Strings escape only quotes, backslashes and controls.  Floating-point numbers
are the shortest decimals that read back, always with a point or an exponent;
what is no number is null.
-/

namespace Lockstep.Json

open Lockstep.Decimal

def writeChar (c : Char) : List Char :=
  if c = '"' then ['\\', '"']
  else if c = '\\' then ['\\', '\\']
  else if c = '\x08' then ['\\', 'b']
  else if c = '\t' then ['\\', 't']
  else if c = '\n' then ['\\', 'n']
  else if c = '\x0c' then ['\\', 'f']
  else if c = '\r' then ['\\', 'r']
  else if c.toNat < 0x20 then
    ['\\', 'u'] ++ Text.padZeros 4 (Text.hexadecimal c.toNat)
  else [c]

def writeString (s : String) : String :=
  String.ofList ('"' :: s.toList.flatMap writeChar ++ ['"'])

def singleLayout : Layout := ⟨.even, -6, 12, true⟩

def doubleLayout : Layout := ⟨.even, -5, 15, true⟩

def writeFloat (f : Format) (layout : Layout) (d : Decoded) : String :=
  match f.finiteText? layout d with
  | some cs => String.ofList cs
  | none => "null"

/-- The text of a datum that is no list and no record. -/
def writeAtom : Datum → String
  | .bool b => if b then "true" else "false"
  | .int n => toString n
  | .single x => writeFloat .single singleLayout x.decode
  | .double x => writeFloat .double doubleLayout x.decode
  | .text s => writeString s
  | _ => "null"

mutual

def write : Datum → String
  | .list _ items => "[" ++ writeItems items ++ "]"
  | .record _ fields => "\x7b" ++ writeFields fields ++ "\x7d"
  | d => writeAtom d

def writeItems : List Datum → String
  | [] => ""
  | [d] => write d
  | d :: rest => write d ++ "," ++ writeItems rest

def writeFields : List (String × Datum) → String
  | [] => ""
  | [(name, d)] => writeString name ++ ":" ++ write d
  | (name, d) :: rest => writeString name ++ ":" ++ write d ++ "," ++ writeFields rest

end

/-- The end of a line and the indentation of the next. -/
def newLine (depth : Nat) : String := "\n" ++ String.ofList (List.replicate (2 * depth) ' ')

mutual

/-- The text of a datum laid out over several lines, from a depth on. -/
def layOut (depth : Nat) : Datum → String
  | .list _ [] => "[]"
  | .list _ items => "[" ++ layOutItems (depth + 1) items ++ newLine depth ++ "]"
  | .record _ [] => "\x7b\x7d"
  | .record _ fields => "\x7b" ++ layOutFields (depth + 1) fields ++ newLine depth ++ "\x7d"
  | d => writeAtom d

def layOutItems (depth : Nat) : List Datum → String
  | [] => ""
  | [d] => newLine depth ++ layOut depth d
  | d :: rest => newLine depth ++ layOut depth d ++ "," ++ layOutItems depth rest

def layOutFields (depth : Nat) : List (String × Datum) → String
  | [] => ""
  | [(name, d)] => newLine depth ++ writeString name ++ ": " ++ layOut depth d
  | (name, d) :: rest =>
    newLine depth ++ writeString name ++ ": " ++ layOut depth d ++ "," ++
      layOutFields depth rest

end

/-- The text of a datum laid out over several lines. -/
def writePretty (d : Datum) : String := layOut 0 d

end Lockstep.Json
