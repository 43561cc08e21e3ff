import Lockstep.Stack.State

/-!
# Moving entries

The operations that only move entries about: discarding, duplicating and
exchanging them, boxing the top one, consuming it in a conditional jump.  Each
emits the instructions that fit the widths of the entries it moves.

`remove`, `replace` and `push` change the model alone, for values that other
instructions have already consumed or produced.
-/

namespace Lockstep

namespace ValueType

/-- The instruction that discards a value of the type. -/
def discard (t : ValueType) : Instr :=
  match t.width with
  | .one => .pop
  | .two => .pop2

/-- The instruction that duplicates a value of the type. -/
def duplicate (t : ValueType) : Instr :=
  match t.width with
  | .one => .dup
  | .two => .dup2

/-- The instructions that exchange the top two values.  Only two narrow values
have an instruction for it; otherwise the top is copied under the other value
and then discarded. -/
def exchange (top below : ValueType) : List Instr :=
  match below.width, top.width with
  | .one, .one => [.swap]
  | .one, .two => [.dup2X1, .pop2]
  | .two, .one => [.dupX2, .pop]
  | .two, .two => [.dup2X2, .pop2]

end ValueType

namespace Op

def top : Op ValueType := do
  match ← entries with
  | t :: _ => return t
  | [] => fail (.underflow .topOperand 1 0)

/-- Discards entries until a given number remain, one instruction for each. -/
def popDownTo (mark : Nat) : Op Unit := do
  let ts ← entries
  if ts.length < mark then fail (.popBelowMark mark ts.length)
  emitAll ((ts.take (ts.length - mark)).map ValueType.discard)
  setEntries (ts.drop (ts.length - mark))

def pop : Op Unit := do
  let ts ← entries
  if ts.isEmpty then fail (.underflow .pop 1 0)
  popDownTo (ts.length - 1)

/-- Forgets entries that other instructions have consumed. -/
def remove (amount : Nat) : Op Unit := do
  let ts ← entries
  if ts.length < amount then fail (.underflow .remove amount ts.length)
  setEntries (ts.drop amount)
  note (.removed amount (ts.length - amount))

/-- Puts one type in the place of a number of entries. -/
def replaceMany (t : ValueType) (n : Nat) : Op Unit := do
  let ts ← entries
  if ts.length < n then fail (.underflow .replace n ts.length)
  setEntries (t :: ts.drop n)

def replace (t : ValueType) : Op Unit := replaceMany t 1

def dup : Op Unit := do
  match ← entries with
  | t :: _ =>
    emit t.duplicate
    push t
  | [] => fail (.underflow .dup 1 0)

def swap : Op Unit := do
  match ← entries with
  | top :: below :: rest =>
    emitAll (top.exchange below)
    setEntries (below :: top :: rest)
  | ts => fail (.underflow .swap (ts.length + 1) ts.length)

/-- Boxes the top entry if it is primitive, and gives its new type. -/
def box : Op ValueType := do
  let t ← top
  match t.prim? with
  | none => return t
  | some kind =>
    emit (.box kind)
    replace t.box
    return t.box

/-- Consumes the top entry in a conditional jump. -/
def jumpTo (cond : Cond) (label : Label) : Op Unit := do
  if (← entries).isEmpty then fail (.underflow .jump 1 0)
  emit (.jump cond label)
  remove 1

/-- Consumes the top entry in a conditional jump to a fresh label, and gives the
label.  The label is handed out first, even if the jump then fails. -/
def jump (cond : Cond) : Op Label := do
  let label ← freshLabel
  jumpTo cond label
  return label

def pushBool (value : Bool) : Op Unit := do
  emit (.intConst (if value then 1 else 0))
  push .boolean

/-- Loads a local slot as a value of a type. -/
def load (t : ValueType) (index : UInt16) : Op Unit := do
  emit (.load t.carrier index)
  push t

end Op

end Lockstep
