import Lockstep.Instr.Listing

/-!
# Defects of code

What is wrong with a piece of code whose control flow or stack heights do not
fit together.  Positions count instructions from zero, heights count slots.
-/

namespace Lockstep.Flow

inductive Defect where
  /-- A jump names a label that is marked nowhere. -/
  | unknownLabel (position : Nat) (label : Label)
  /-- A label is marked a second time. -/
  | duplicateLabel (position : Nat) (label : Label)
  /-- Control reaches a position with two different heights. -/
  | heightMismatch (position expected actual : Nat)
  /-- An instruction pops more slots than there are. -/
  | underflow (position required actual : Nat)
  /-- An instruction leaves more slots than are allowed. -/
  | overflow (position height limit : Nat)
  /-- Control never runs off the end. -/
  | noFallThrough
  deriving DecidableEq

def Defect.message : Defect → String
  | .unknownLabel position label =>
    "jump at pc=" ++ toString position ++ " targets unmarked label " ++ label.text
  | .duplicateLabel position label =>
    "label " ++ label.text ++ " marked again at pc=" ++ toString position
  | .heightMismatch position expected actual =>
    "stack height mismatch at pc=" ++ toString position ++ ": expected " ++
      toString expected ++ ", got " ++ toString actual
  | .underflow position required actual =>
    "stack underflow at pc=" ++ toString position ++ ": requires " ++
      toString required ++ " slots, but only " ++ toString actual ++ " on stack"
  | .overflow position height limit =>
    "stack overflow at pc=" ++ toString position ++ ": height " ++ toString height ++
      " exceeds max_stack " ++ toString limit
  | .noFallThrough => "end of fragment is unreachable"

end Lockstep.Flow
