import Lockstep.Value.ValueType

/-!
# Failures

An operation on the operand stack fails when the stack does not hold what the
operation needs, or when a literal has no load.  Each failure means that the
generator that drives the model has lost track of the machine's stack; it
carries the cause and the place in the program being compiled.
-/

namespace Lockstep

structure Site where
  source : String
  className : String
  callable : String
  line : UInt32
  deriving DecidableEq

def Site.text (s : Site) : String :=
  s.source ++ " (" ++ s.className ++ "." ++ s.callable ++ ", line " ++
    toString s.line.toNat ++ ")"

/-- What needed more entries than the stack holds. -/
inductive Need where
  | topOperand
  | pop
  | remove
  | replace
  | dup
  | swap
  | jump
  deriving DecidableEq, Repr

def Need.text : Need → String
  | .topOperand => "top operand"
  | .pop => "pop"
  | .remove => "remove"
  | .replace => "replace"
  | .dup => "dup"
  | .swap => "swap"
  | .jump => "jump"

inductive Fault where
  /-- The stack holds fewer entries than are required. -/
  | underflow (need : Need) (required size : Nat)
  /-- The stack holds fewer entries than are to remain. -/
  | popBelowMark (mark size : Nat)
  /-- There is nothing to convert. -/
  | castOnEmptyStack (target : ValueType) (explicit : Bool)
  /-- There is neither no entry nor one above a mark. -/
  | boolMarkMismatch (mark size : Nat)
  /-- No load is known for a literal of a reference type. -/
  | unsupportedConstant (literal : String) (type : ValueType)
  /-- A literal is not of its declared primitive kind. -/
  | constantTypeMismatch (literal : String) (type : ValueType)
  deriving DecidableEq

def Fault.message : Fault → String
  | .underflow need required size =>
    need.text ++ " needs " ++ toString required ++ " operands, but operand stack holds " ++
      toString size
  | .popBelowMark mark size =>
    "cannot pop operand stack down to " ++ toString mark ++ ": it holds only " ++
      toString size ++ " elements"
  | .castOnEmptyStack target explicit =>
    "expecting " ++ (if explicit then "coercion" else "casting") ++ " to " ++
      target.text ++ " but operand stack is empty"
  | .boolMarkMismatch mark size =>
    "operand stack contains " ++ toString size ++ " elements, but we expected only " ++
      toString mark
  | .unsupportedConstant literal type =>
    "cannot generate bytecode for constant: " ++ literal ++ " of type: " ++ type.text
  | .constantTypeMismatch literal type =>
    "constant " ++ literal ++ " does not fit declared type " ++ type.text

structure Failure where
  fault : Fault
  site : Site
  deriving DecidableEq

def Failure.message (f : Failure) : String :=
  "internal compiler error in " ++ f.site.text ++ ": " ++ f.fault.message

end Lockstep
