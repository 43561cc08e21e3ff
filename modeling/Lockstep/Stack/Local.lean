import Lockstep.Stack.Convert

/-!
# Local variables

Loading and storing locals.  A local that a closure shares is a holder: its
slot contains a cell, and the value is in the cell.
-/

namespace Lockstep

structure Variable where
  name : String
  index : UInt16
  type : ValueType
  /-- Whether the value is in a cell that closures share. -/
  holder : Bool
  deriving DecidableEq

namespace Op

/-- Loads the value of a variable, or on request the cell of a holder itself. -/
def loadVariable (v : Variable) (cellItself : Bool) : Op Unit := do
  if v.holder then
    emit (.load .reference v.index)
    if cellItself then push (← support).cellType
    else
      emit (.invoke (← support).cellGet)
      dynamicCast v.type
      push v.type
  else load v.type v.index

/-- Converts the top value to the type of a variable. -/
def castToVariable (v : Variable) : Op Unit := cast v.type

/-- Converts the top value to the type of a variable and stores it. -/
def storeVariable (v : Variable) : Op Unit := do
  cast v.type
  if v.holder then
    discard box
    emitAll
      [.load .reference v.index, .checkCast (← support).cellType, .swap,
       .invoke (← support).cellSet]
  else emit (.store v.type.carrier v.index)
  remove 1

/-- Stores to a variable on the left of an assignment, and loads it anywhere
else. -/
def accessVariable (v : Variable) (cellItself onLeft : Bool) : Op Unit :=
  if onLeft then storeVariable v else loadVariable v cellItself

end Op

end Lockstep
