import Lockstep.Document.Datum
import Lockstep.Trace.Basic

/-!
# Traces in documents

A trace as a record, and back.  A step names its operation in the field `op`
beside its operands, a literal its kind in the field `kind` beside its value.
Fields with defaults may be left out when a trace is read; all are written.

A step is buffered until its operation is known, and so has to be readable as a
whole, also in the fields that its operation does not have, while any other
record may hold anything in fields that nobody asks for.
-/

namespace Lockstep

open Datum

/-! ## Literals -/

/-- The object literal of a record with its class and its text. -/
def Literal.objectOfDatum? (d : Datum) : Option Literal := do
  let fields ← d.toEntries?
  return .object (← required fields "class_name" toText?) (← required fields "text" toText?)

/-- The literal of a kind, given the fields of its record. -/
def Literal.ofFields? (kind : String) (fields : List (String × Datum)) : Option Literal :=
  let value {α : Type} (read : Datum → Option α) : Option α := required fields "value" read
  match kind with
  | "null" => (optional fields "value" () toNull?).map fun _ => .null
  | "boolean" => (value toBool?).map .boolean
  | "byte" => (value toInt8?).map .byte
  | "char" => (value toUInt16?).map .char
  | "short" => (value toInt16?).map .short
  | "int" => (value toInt32?).map .int
  | "long" => (value toInt64?).map .long
  | "float" => (value toBinary32?).map .float
  | "double" => (value toBinary64?).map .double
  | "string" => (value toText?).map .string
  | "big_integer" => (value toText?).map .bigInteger
  | "big_decimal" => (value toText?).map .bigDecimal
  | "object" => value objectOfDatum?
  | _ => none

/-- The literal of a record, or of a list of its kind and its value. -/
def Literal.ofDatum? : Datum → Option Literal
  | .record _ fields => do ofFields? (← required fields "kind" toName?) fields
  | .list _ [kind, value] => do ofFields? (← kind.toName?) [("value", value)]
  | _ => none

def Literal.toDatum (l : Literal) : Datum :=
  let tagged (kind : String) (value : Datum) : Datum :=
    .object [("kind", .text kind), ("value", value)]
  match l with
  | .null => .object [("kind", .text "null")]
  | .boolean v => tagged "boolean" (.bool v)
  | .byte v => tagged "byte" (.int v.toInt)
  | .char unit => tagged "char" (.int unit.toNat)
  | .short v => tagged "short" (.int v.toInt)
  | .int v => tagged "int" (.int v.toInt)
  | .long v => tagged "long" (.int v.toInt)
  | .float v => tagged "float" (.single v)
  | .double v => tagged "double" (.double v)
  | .string s => tagged "string" (.text s)
  | .bigInteger digits => tagged "big_integer" (.text digits)
  | .bigDecimal digits => tagged "big_decimal" (.text digits)
  | .object className text =>
    tagged "object" (.object [("class_name", .text className), ("text", .text text)])

/-! ## Variables -/

def Variable.ofDatum? (d : Datum) : Option Variable := do
  let fields ← d.toFields? ["name", "index", "type", "holder"]
  return {
    name := ← required fields "name" toText?
    index := ← required fields "index" toUInt16?
    type := ← required fields "type" toType?
    holder := ← optional fields "holder" false toBool? }

def Variable.toDatum (v : Variable) : Datum :=
  .object
    [("name", .text v.name), ("index", .int v.index.toNat), ("type", .text v.type.text),
     ("holder", .bool v.holder)]

/-! ## Steps -/

/-- The step of an operation, given the fields of its record. -/
def Step.ofFields? (op : String) (fields : List (String × Datum)) : Option Step := do
  let type := required fields "type" toType?
  match op with
  | "push" => return .push (← type)
  | "pop" => return .pop
  | "pop_down_to" => return .popDownTo (← required fields "mark" toUInt64?)
  | "remove" => return .remove (← required fields "amount" toUInt64?)
  | "replace" => return .replace (← type) (← optional fields "n" 1 toUInt64?)
  | "dup" => return .dup
  | "swap" => return .swap
  | "box" => return .box
  | "cast" => return .cast (← type)
  | "coerce" => return .coerce (← type)
  | "cast_to_bool" =>
    return .castToBool (← required fields "mark" toUInt64?)
      (← optional fields "empty_default" false toBool?)
  | "constant" => return .constant (← required fields "value" Literal.ofDatum?) (← type)
  | "load_var" =>
    return .loadVar (← required fields "var" Variable.ofDatum?)
      (← optional fields "use_reference_directly" false toBool?)
  | "store_var" => return .storeVar (← required fields "var" Variable.ofDatum?)
  | "push_bool" => return .pushBool (← required fields "value" toBool?)
  | "line" => return .line (← required fields "line" toUInt32?)
  | _ => none

/-- The names of the operands of an operation, in their order. -/
def Step.operandNames (op : String) : List String :=
  match op with
  | "push" | "cast" | "coerce" => ["type"]
  | "pop_down_to" => ["mark"]
  | "remove" => ["amount"]
  | "replace" => ["type", "n"]
  | "cast_to_bool" => ["mark", "empty_default"]
  | "constant" => ["value", "type"]
  | "load_var" => ["var", "use_reference_directly"]
  | "store_var" => ["var"]
  | "push_bool" => ["value"]
  | "line" => ["line"]
  | _ => []

/-- The step of a record, or of a list of its operation and its operands. -/
def Step.ofDatum? (d : Datum) : Option Step := do
  match ← d.buffer? with
  | .record _ fields => ofFields? (← required fields "op" toText?) fields
  | .list form (op :: operands) =>
    let op ← op.toText?
    ofFields? op (← (Datum.list form operands).toFields? (operandNames op))
  | _ => none

def Step.toDatum (s : Step) : Datum :=
  let tagged (op : String) (operands : List (String × Datum)) : Datum :=
    .object (("op", .text op) :: operands)
  let type (t : ValueType) : String × Datum := ("type", ofType t)
  let number (name : String) (n : Nat) : String × Datum := (name, .int n)
  match s with
  | .push t => tagged "push" [type t]
  | .pop => tagged "pop" []
  | .popDownTo mark => tagged "pop_down_to" [number "mark" mark.toNat]
  | .remove amount => tagged "remove" [number "amount" amount.toNat]
  | .replace t n => tagged "replace" [type t, number "n" n.toNat]
  | .dup => tagged "dup" []
  | .swap => tagged "swap" []
  | .box => tagged "box" []
  | .cast t => tagged "cast" [type t]
  | .coerce t => tagged "coerce" [type t]
  | .castToBool mark ifEmpty =>
    tagged "cast_to_bool" [number "mark" mark.toNat, ("empty_default", .bool ifEmpty)]
  | .constant value t => tagged "constant" [("value", value.toDatum), type t]
  | .loadVar v cellItself =>
    tagged "load_var" [("var", v.toDatum), ("use_reference_directly", .bool cellItself)]
  | .storeVar v => tagged "store_var" [("var", v.toDatum)]
  | .pushBool value => tagged "push_bool" [("value", .bool value)]
  | .line n => tagged "line" [number "line" n.toNat]

/-! ## Class declarations -/

def ClassSort.name : ClassSort → String
  | .ordinary => "class"
  | .interface => "interface"
  | .enum => "enum"
  | .annotationType => "annotation"

def ClassSort.ofName? (name : String) : Option ClassSort :=
  [ClassSort.ordinary, .interface, .enum, .annotationType].find? (·.name = name)

def ClassSort.ofDatum? (d : Datum) : Option ClassSort := d.toName?.bind ofName?

def ClassDecl.ofDatum? (d : Datum) : Option ClassDecl := do
  let fields ← d.toFields? ["name", "kind", "superclass", "interfaces"]
  return {
    name := ← required fields "name" toText?
    sort := ← optional fields "kind" .ordinary ClassSort.ofDatum?
    superclass := ← optional fields "superclass" none toTypeOrNull?
    interfaces := ← optional fields "interfaces" [] (toList? toType?) }

def ClassDecl.toDatum (d : ClassDecl) : Datum :=
  .object
    [("name", .text d.name), ("kind", .text d.sort.name),
     ("superclass", ofTypeOrNull d.superclass),
     ("interfaces", .array (d.interfaces.map ofType))]

/-! ## Aliases -/

/-- The aliases of a record; of several with one name the last counts. -/
def Aliases.ofDatum? (d : Datum) : Option Aliases := do
  let fields ← d.toEntries?
  return ofList (← fields.mapM fun (name, target) => do return (name, ← target.toType?))

def Aliases.toDatum (a : Aliases) : Datum :=
  .object (a.entries.map fun (name, target) => (name, ofType target))

/-! ## Traces -/

namespace Trace

def ofDatum? (d : Datum) : Option Trace := do
  let fields ←
    d.toFields? ["source", "class_name", "callable", "classes", "aliases", "steps"]
  return {
    source := ← optional fields "source" "" toText?
    className := ← optional fields "class_name" "" toText?
    callable := ← optional fields "callable" "" toText?
    classes := ← optional fields "classes" [] (toList? ClassDecl.ofDatum?)
    aliases := ← optional fields "aliases" .empty Aliases.ofDatum?
    steps := ← optional fields "steps" [] (toList? Step.ofDatum?) }

def toDatum (t : Trace) : Datum :=
  .object
    [("source", .text t.source), ("class_name", .text t.className),
     ("callable", .text t.callable), ("classes", .array (t.classes.map ClassDecl.toDatum)),
     ("aliases", t.aliases.toDatum),
     ("steps", .array (t.steps.map Step.toDatum))]

end Trace

end Lockstep
