import Lockstep.Document.Datum

/-!
# Tables of a TOML document

A TOML document is a sequence of statements, and the tables it describes grow as
the statements are read.  What a statement may add to a table depends on how the
table came about: by a header of its own, by a header of a table inside it, or
by a dotted name.

* A header gives a table of its own to a name that has none, or has one only
  because of headers of inner tables.
* A dotted name adds to tables that dotted names have made, and passes through
  tables that headers of inner tables have made.
* Nothing is assigned twice, and an inline value is closed once it is read.
-/

namespace Lockstep.Toml

inductive Origin where
  | header
  | innerHeader
  | dotted
  deriving DecidableEq

/-- What a name stands for while a document is read. -/
inductive Node where
  | value (d : Datum)
  | table (origin : Origin) (entries : List (String × Node))
  | rows (tables : List (List (String × Node)))

/-- The names of a table with what they stand for, in order. -/
abbrev Entries := List (String × Node)

namespace Entries

/-- Puts something in the place of what a name stands for, or at the end if it
stands for nothing. -/
def put (name : String) (node : Node) : Entries → Entries
  | [] => [(name, node)]
  | (other, old) :: rest =>
    if other = name then (name, node) :: rest else (other, old) :: put name node rest

/-- Puts what a header is about in the place of its name.  Rows stay where the
first of them stood, and a table comes last, also if there was one because of
headers of inner tables. -/
def settle (name : String) (node : Node) (entries : Entries) : Entries :=
  match node with
  | .rows _ => put name node entries
  | _ => entries.filter (·.1 ≠ name) ++ [(name, node)]

/-- Assigns a value to a name in the table that a path of dotted names leads
to. -/
def assign (name : String) (d : Datum) : List String → Entries → Option Entries
  | [], entries =>
    match entries.lookup name with
    | none => some (put name (.value d) entries)
    | some _ => none
  | step :: path, entries =>
    match entries.lookup step with
    | none => (assign name d path []).map fun inner => put step (.table .dotted inner) entries
    | some (.table .dotted inner) =>
      (assign name d path inner).map fun inner => put step (.table .dotted inner) entries
    | some (.table .innerHeader inner) =>
      if path.isEmpty then none
      else
        (assign name d path inner).map fun inner =>
          put step (.table .innerHeader inner) entries
    | some (.rows tables) =>
      if path.isEmpty then none
      else
        (assign name d path (tables.getLast?.getD [])).map fun last =>
          put step (.rows (tables.dropLast ++ [last])) entries
    | some (.table .header _) | some (.value _) => none

/-- Changes what the last name on the path of a header stands for. -/
def change (f : Option Node → Option Node) : List String → Entries → Option Entries
  | [], _ => none
  | [name], entries => (f (entries.lookup name)).map fun node => settle name node entries
  | step :: path, entries =>
    match entries.lookup step with
    | none =>
      (change f path []).map fun inner => put step (.table .innerHeader inner) entries
    | some (.table origin inner) =>
      (change f path inner).map fun inner => put step (.table origin inner) entries
    | some (.rows tables) =>
      (change f path (tables.getLast?.getD [])).map fun last =>
        put step (.rows (tables.dropLast ++ [last])) entries
    | some (.value _) => none

end Entries

/-- An assignment: the path of a dotted name, the last name, and the value. -/
structure Assignment where
  path : List String
  name : String
  value : Datum

def Entries.assignAll (assignments : List Assignment) (entries : Entries) : Option Entries :=
  assignments.foldlM (fun entries a => entries.assign a.name a.value a.path) entries

/-- A header with the assignments below it. -/
structure Section where
  path : List String
  /-- Whether the header adds a row to a list of tables. -/
  isRow : Bool
  body : List Assignment

/-- What the name of a header stands for after its section. -/
def Section.apply (s : Section) (before : Option Node) : Option Node :=
  if s.isRow then
    match before with
    | none => (Entries.assignAll s.body []).map fun row => .rows [row]
    | some (.rows tables) =>
      (Entries.assignAll s.body []).map fun row => .rows (tables ++ [row])
    | _ => none
  else
    match before with
    | none => (Entries.assignAll s.body []).map (.table .header)
    | some (.table .innerHeader inner) =>
      (Entries.assignAll s.body inner).map (.table .header)
    | _ => none

mutual

/-- The datum of a node; its tables have a given form. -/
def Node.datum (form : Form) : Node → Datum
  | .value d => d
  | .table _ entries => .record form (fieldsOf form entries)
  | .rows tables => .list form (recordsOf form tables)

def fieldsOf (form : Form) : Entries → List (String × Datum)
  | [] => []
  | (name, node) :: rest => (name, node.datum form) :: fieldsOf form rest

def recordsOf (form : Form) : List Entries → List Datum
  | [] => []
  | entries :: rest => .record form (fieldsOf form entries) :: recordsOf form rest

end

/-- The record of some assignments that stand in one inline table. -/
def inlineRecord (assignments : List Assignment) : Option Datum :=
  (Entries.assignAll assignments []).map fun entries =>
    .record .tomlValue (fieldsOf .tomlValue entries)

def documentRecord (root : List Assignment) (sections : List Section) : Option Datum := do
  let entries ← Entries.assignAll root []
  let entries ← sections.foldlM (fun entries s => entries.change s.apply s.path) entries
  return .record .tomlTable (fieldsOf .tomlTable entries)

end Lockstep.Toml
