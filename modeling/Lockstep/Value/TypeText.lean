import Lockstep.Text.Blank
import Lockstep.Value.ValueType

/-!
# Reading types

The readable text of a type, as it stands in traces: a keyword or a class name,
followed by a pair of brackets for each array layer.  Blank characters may stand
around the text and before each pair of brackets, never inside a name or
between two brackets.  `String` and `Object` abbreviate the platform classes.

The reader takes the brackets off from the right, trimming each time, so the
text it goes on with is always shorter.
-/

namespace Lockstep.TypeText

open Lockstep.Text

inductive Fault where
  /-- Nothing is left where a name should stand. -/
  | empty
  /-- What is left has a blank character or a bracket in it. -/
  | malformed (name : List Char)

def Fault.message : Fault → String
  | .empty => "empty type name"
  | .malformed name => "malformed type name: " ++ String.ofList name

/-- A character that no class name contains. -/
def isForeign (c : Char) : Bool := isBlank c || c = '[' || c = ']'

/-- The type of a class name with the two abbreviations expanded. -/
def expand (name : String) : ValueType :=
  if name = "String" then .string
  else if name = "Object" then .object
  else .ofClassName name

/-- Reads a text that is trimmed and ends in no pair of brackets. -/
def readElement (cs : List Char) : Except Fault ValueType :=
  match Prim.ofKeyword? (String.ofList cs) with
  | some kind => .ok (.primitive kind)
  | none =>
    if cs.isEmpty then .error .empty
    else if cs.any isForeign then .error (.malformed cs)
    else .ok (expand (String.ofList cs))

def read (cs : List Char) : Except Fault ValueType :=
  match _shape : (trim cs).reverse with
  | ']' :: '[' :: front => (read front.reverse).map .array
  | _ => readElement (trim cs)
termination_by cs.length
decreasing_by
  have le := length_trim_le cs
  have eq := congrArg List.length _shape
  simp only [List.length_reverse, List.length_cons] at eq ⊢
  omega

end Lockstep.TypeText

namespace Lockstep

def ValueType.parse (s : String) : Except TypeText.Fault ValueType := TypeText.read s.toList

end Lockstep
