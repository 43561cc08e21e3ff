import Lockstep.Decimal.Binary
import Lockstep.Value.TypeText

/-!
# Data of structured documents

What a document in one of the two formats, JSON and TOML, says once its syntax
is gone.  Records keep their fields in order and can repeat a name: whether that
is a fault is for the reader of the record to say.

A datum is *unreadable* when its text is well-formed but no value: a number
beyond the range of its format, a text with half a surrogate pair, a nesting too
deep.  It does no harm where nobody looks at it.

The rest reads data.  A record is read by its fields: a required field occurs
exactly once, an optional one may be missing and then has a default, and fields
that are not asked for are ignored.  A list can stand for a record and gives the
values of the fields in their order.  Where one of several names is expected, a
record can stand for the name of its only field, if the field is blank.  How much
may be left over in these two cases, and what is blank, depends on the form in
which the list or the record was written, which is why data keep it.
-/

namespace Lockstep

open Lockstep.Decimal

inductive Form where
  /-- As a JSON array or object. -/
  | json
  /-- As a TOML array or inline table. -/
  | tomlValue
  /-- By TOML headers and dotted names. -/
  | tomlTable
  /-- In either format, but read only later, when more is known. -/
  | buffered
  deriving DecidableEq, Repr

/-- Whether a list of a form can have more items than the record in whose place
it stands has fields. -/
def Form.allowsExcess : Form → Bool
  | .tomlValue | .tomlTable => true
  | .json | .buffered => false

inductive Datum where
  | null
  | bool (value : Bool)
  | int (value : Int)
  | single (value : Binary32)
  | double (value : Binary64)
  | text (value : String)
  | list (form : Form) (items : List Datum)
  | record (form : Form) (fields : List (String × Datum))
  /-- Well-formed text that is no value. -/
  | unreadable

namespace Datum

def array (items : List Datum) : Datum := .list .json items

def object (fields : List (String × Datum)) : Datum := .record .json fields

/-! ## Buffering -/

mutual

/-- A datum that is kept for later, which takes that nothing in it is
unreadable. -/
def buffer? : Datum → Option Datum
  | .unreadable => none
  | .list _ items => (bufferList? items).map (.list .buffered)
  | .record _ fields => (bufferFields? fields).map (.record .buffered)
  | d => some d

def bufferList? : List Datum → Option (List Datum)
  | [] => some []
  | d :: rest => do
    let d ← d.buffer?
    let rest ← bufferList? rest
    return d :: rest

def bufferFields? : List (String × Datum) → Option (List (String × Datum))
  | [] => some []
  | (name, d) :: rest => do
    let d ← d.buffer?
    let rest ← bufferFields? rest
    return (name, d) :: rest

end

/-! ## Single values -/

def toNull? : Datum → Option Unit
  | .null => some ()
  | _ => none

def toBool? : Datum → Option Bool
  | .bool b => some b
  | _ => none

def toText? : Datum → Option String
  | .text s => some s
  | _ => none

/-- An integer from one bound to another, both included. -/
def toInt? (least greatest : Int) : Datum → Option Int
  | .int n => if least ≤ n ∧ n ≤ greatest then some n else none
  | _ => none

def toInt8? (d : Datum) : Option Int8 :=
  (d.toInt? Int8.minValue.toInt Int8.maxValue.toInt).map Int8.ofInt

def toInt16? (d : Datum) : Option Int16 :=
  (d.toInt? Int16.minValue.toInt Int16.maxValue.toInt).map Int16.ofInt

def toInt32? (d : Datum) : Option Int32 :=
  (d.toInt? Int32.minValue.toInt Int32.maxValue.toInt).map Int32.ofInt

def toInt64? (d : Datum) : Option Int64 :=
  (d.toInt? Int64.minValue.toInt Int64.maxValue.toInt).map Int64.ofInt

def toNat? (limit : Nat) (d : Datum) : Option Nat :=
  (d.toInt? 0 ((limit : Int) - 1)).map Int.toNat

def toUInt16? (d : Datum) : Option UInt16 := (d.toNat? UInt16.size).map UInt16.ofNat

def toUInt32? (d : Datum) : Option UInt32 := (d.toNat? UInt32.size).map UInt32.ofNat

def toUInt64? (d : Datum) : Option UInt64 := (d.toNat? UInt64.size).map UInt64.ofNat

/-- A 32-bit floating-point value; integers are rounded directly. -/
def toBinary32? : Datum → Option Binary32
  | .int n => some (.ofInt n)
  | .single x => some x
  | .double x => some x.toBinary32
  | _ => none

def toBinary64? : Datum → Option Binary64
  | .int n => some (.ofInt n)
  | .double x => some x
  | _ => none

def toType? : Datum → Option ValueType
  | .text s => (ValueType.parse s).toOption
  | _ => none

/-- The type that a text names, or null for none. -/
def toTypeOrNull? : Datum → Option (Option ValueType)
  | .null => some none
  | d => d.toType?.map some

def ofType (t : ValueType) : Datum := .text t.text

/-- The text of a type, or null for none. -/
def ofTypeOrNull (t : Option ValueType) : Datum := (t.map ofType).getD .null

def toList? {α : Type} (read : Datum → Option α) : Datum → Option (List α)
  | .list _ items => items.mapM read
  | _ => none

/-- The fields of a record, whatever their names. -/
def toEntries? : Datum → Option (List (String × Datum))
  | .record _ fields => some fields
  | _ => none

/-- The fields of a record that has some names, or of a list in its place. -/
def toFields? (names : List String) : Datum → Option (List (String × Datum))
  | .record _ fields => some fields
  | .list form items =>
    if items.length ≤ names.length ∨ form.allowsExcess then some (names.zip items) else none
  | _ => none

/-- Whether a datum is blank as a field of a record: null where the format has
it, and an empty record unless the record is read from JSON at once. -/
def isBlankIn (form : Form) : Datum → Bool
  | .null => form = .json || form = .buffered
  | .record _ [] => form ≠ .json
  | _ => false

/-- A name out of several: a text, or a record whose only field has that name and
is blank.  Of a table that TOML headers and dotted names make up, the first field
counts and no other. -/
def toName? : Datum → Option String
  | .text name => some name
  | .record form ((name, d) :: rest) =>
    if d.isBlankIn form ∧ (rest.isEmpty ∨ form = .tomlTable) then some name else none
  | _ => none

/-! ## Fields -/

/-- The values that a record gives to a name. -/
def valuesOf (name : String) (fields : List (String × Datum)) : List Datum :=
  (fields.filter (·.1 = name)).map (·.2)

def required {α : Type} (fields : List (String × Datum)) (name : String)
    (read : Datum → Option α) : Option α :=
  match valuesOf name fields with
  | [d] => read d
  | _ => none

def optional {α : Type} (fields : List (String × Datum)) (name : String) (default : α)
    (read : Datum → Option α) : Option α :=
  match valuesOf name fields with
  | [] => some default
  | [d] => read d
  | _ => none

end Datum

end Lockstep
