import Lockstep.Stack.Convert

/-!
# Truth values

Reducing the value of a condition to a truth value.  A reference asks the
support library.  A number is true when it is not zero, and a floating-point
number that is no number is false: since a comparison cannot tell that, the code
keeps a copy of the value for a second test.
-/

namespace Lockstep

namespace Prim

/-- How many labels the truth test of a kind needs. -/
def truthLabels : Prim → Nat
  | .boolean => 0
  | .float | .double => 3
  | _ => 2

/-- The question whether a floating-point value is no number. -/
def isNaN (kind : Prim) : Method :=
  ⟨.static, (ValueType.boxed kind).internalName, "isNaN", [.primitive kind],
   some .boolean⟩

/-- The test of a floating-point value, given how to copy, compare and discard
it. -/
def floatingTruth (kind : Prim) (first : Nat) (copy zero compare discard : Instr) :
    List Instr :=
  let done : Label := ⟨first⟩
  let falsy : Label := ⟨first + 1⟩
  let falsyWithCopy : Label := ⟨first + 2⟩
  [copy, zero, compare, .jump .isZero falsyWithCopy, .invoke kind.isNaN,
   .jump .isNonzero falsy, .intConst 1, .goto done, .mark falsyWithCopy, discard,
   .mark falsy, .intConst 0, .mark done]

def integralTruth (first : Nat) : List Instr :=
  let done : Label := ⟨first⟩
  let falsy : Label := ⟨first + 1⟩
  [.jump .isZero falsy, .intConst 1, .goto done, .mark falsy, .intConst 0, .mark done]

/-- The code that replaces a value of a kind on the machine's stack by 0 or 1,
with labels from a given number on. -/
def truthCode (kind : Prim) (first : Nat) : List Instr :=
  match kind with
  | .boolean => []
  | .float => kind.floatingTruth first .dup .floatZero .compareFloat .pop
  | .double => kind.floatingTruth first .dup2 .doubleZero .compareDouble .pop2
  | .long => [.longZero, .compareLong] ++ integralTruth first
  | _ => integralTruth first

end Prim

namespace Op

/-- Replaces a primitive on the machine's stack by 0 or 1, without a change of
the model. -/
def primTruth (kind : Prim) : Op Unit := do
  let first ← freshLabels kind.truthLabels
  emitAll (kind.truthCode first)

/-- Reduces what a condition left above a mark to a truth value.  Nothing above
the mark is a condition left out, with a given value; one entry is reduced; any
other number is a fault. -/
def castToBool (mark : Nat) (ifEmpty : Bool) : Op Unit := do
  let ts ← entries
  if ts.length = mark then
    emit (.bytePush (if ifEmpty then 1 else 0))
    push .boolean
  else if ts.length = mark + 1 then
    match ← top with
    | .primitive .boolean => return
    | .primitive kind =>
      primTruth kind
      replace .boolean
    | _ =>
      referenceTruth
      replace .boolean
  else fail (.boolMarkMismatch mark ts.length)

end Op

end Lockstep
