import Lockstep.Json.Token

/-!
# Reading JSON

A JSON text as a datum.  The syntax is the standard one with nothing added.
What lies in more than `deepest` nested arrays and objects is unreadable, and so
is an object with an unreadable name.
-/

namespace Lockstep.Json

/-- How many arrays and objects can be nested. -/
def deepest : Nat := 127

/-- An array or object at a depth, counted from one for the outermost. -/
def closed (depth : Nat) (d : Datum) : Datum := if deepest < depth then .unreadable else d

mutual

/-- Reads a value that begins with the first of some tokens and lies in a number
of arrays and objects. -/
def readValue : Nat → Nat → List Token → Option (Datum × List Token)
  | 0, _, _ => none
  | _ + 1, _, .atom d :: rest => some (d, rest)
  | _ + 1, _, .string (some s) :: rest => some (.text s, rest)
  | _ + 1, _, .string none :: rest => some (.unreadable, rest)
  | _ + 1, depth, .beginArray :: .endArray :: rest =>
    some (closed (depth + 1) (.array []), rest)
  | fuel + 1, depth, .beginArray :: rest => readItems fuel (depth + 1) [] rest
  | _ + 1, depth, .beginObject :: .endObject :: rest =>
    some (closed (depth + 1) (.object []), rest)
  | fuel + 1, depth, .beginObject :: rest => readFields fuel (depth + 1) true [] rest
  | _ + 1, _, _ => none

/-- Reads the items of an array up to its end, given those before, latest
first. -/
def readItems : Nat → Nat → List Datum → List Token → Option (Datum × List Token)
  | 0, _, _, _ => none
  | fuel + 1, depth, items, tokens =>
    match readValue fuel depth tokens with
    | some (d, .comma :: rest) => readItems fuel depth (d :: items) rest
    | some (d, .endArray :: rest) => some (closed depth (.array (d :: items).reverse), rest)
    | _ => none

/-- Reads the fields of an object up to its end, given those before, latest
first, and whether all names before were readable. -/
def readFields : Nat → Nat → Bool → List (String × Datum) → List Token →
    Option (Datum × List Token)
  | 0, _, _, _, _ => none
  | fuel + 1, depth, named, fields, .string name :: .colon :: tokens =>
    let named := named && name.isSome
    let field (d : Datum) := (name.getD "", d)
    match readValue fuel depth tokens with
    | some (d, .comma :: rest) => readFields fuel depth named (field d :: fields) rest
    | some (d, .endObject :: rest) =>
      let whole := if named then .object (field d :: fields).reverse else .unreadable
      some (closed depth whole, rest)
    | _ => none
  | _, _, _, _, _ => none

end

def read (s : String) : Option Datum :=
  match tokens? s.toList with
  | none => none
  | some tokens =>
    match readValue (2 * tokens.length + 1) 0 tokens with
    | some (d, []) => some d
    | _ => none

end Lockstep.Json
