import Lockstep.Toml.Number
import Lockstep.Toml.Table
import Lockstep.Toml.Text

/-!
# Reading TOML

A TOML text as a datum: first the statements, then the tables they describe.
A byte order mark in front of the text is skipped.
-/

namespace Lockstep.Toml

open Scan

/-! ## Values -/

def scalar : Scan Datum := do
  match ← ahead with
  | '"' :: _ | '\'' :: _ => return .text (← string)
  | 't' :: _ =>
    word ['t', 'r', 'u', 'e']
    return .bool true
  | 'f' :: _ =>
    word ['f', 'a', 'l', 's', 'e']
    return .bool false
  | _ => number

/-- A list, given the scanner of its items.  A comma may follow the last. -/
def list (item : Scan Datum) : Scan Datum := do
  char '['
  let items ← opt (separated (do
      blankLines
      let d ← item
      blankLines
      return d) (char ','))
  if items.isSome then discard (opt (char ','))
  blankLines
  char ']'
  return .list .tomlValue (items.getD [])

/-- A name, an equals sign and a value, given the scanner of values. -/
def assignment (value : Scan Datum) : Scan Assignment := do
  let names ← dottedName
  char '='
  blanks
  let d ← value
  return ⟨names.dropLast, names.getLast?.getD "", d⟩

/-- An inline table, given the scanner of its values. -/
def inlineTable (value : Scan Datum) : Scan Datum := do
  char '\x7b'
  let assignments ← opt (separated (do
      let a ← assignment value
      blanks
      return a) (char ','))
  blanks
  char '\x7d'
  match inlineRecord (assignments.getD []) with
  | some d => return d
  | none => failure

/-- A value in which others are nested at most to a depth. -/
def value : Nat → Scan Datum
  | 0 => scalar
  | depth + 1 => list (value depth) <|> inlineTable (value depth) <|> scalar

/-! ## Statements -/

/-- A statement: an assignment, or a header with its path and whether it adds a
row. -/
inductive Statement where
  | assign (a : Assignment)
  | header (path : List String) (isRow : Bool)

def header : Scan Statement := (do
    word ['[', '[']
    let path ← dottedName
    word [']', ']']
    return .header path true) <|> (do
    char '['
    let path ← dottedName
    char ']'
    return .header path false)

/-- A statement with the end of its line, or nothing on a line without one. -/
def line : Scan (Option Statement) := do
  blanks
  match ← ahead with
  | [] => failure
  | '#' :: _ | '\r' :: _ | '\n' :: _ =>
    lineEnd
    return none
  | '[' :: _ =>
    let s ← header
    lineEnd
    return some s
  | _ =>
    let a ← assignment (value (nestingLimit - 1))
    lineEnd
    return some (.assign a)

def statements : Scan (List Statement) := do
  discard (opt (char '\uFEFF'))
  let lines ← many line
  blanks
  atEnd
  return lines.filterMap id

/-- Splits statements into the assignments before the first header, and a
section for each header. -/
def split : List Statement → List Assignment × List Section
  | [] => ([], [])
  | .assign a :: rest =>
    let (before, sections) := split rest
    (a :: before, sections)
  | .header path isRow :: rest =>
    let (body, sections) := split rest
    ([], ⟨path, isRow, body⟩ :: sections)

def read (s : String) : Option Datum := do
  let (found, _) ← StateT.run statements s.toList
  let (root, sections) := split found
  documentRecord root sections

end Lockstep.Toml
