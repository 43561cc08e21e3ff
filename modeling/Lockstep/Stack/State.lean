import Lockstep.Classes.Registry
import Lockstep.Settings.Basic
import Lockstep.Stack.Failure
import Lockstep.Stack.Note

/-!
# Operations and their state

An operation on the operand stack does two things in one step: it changes the
model, a list of the types of the values on the stack, and it appends to the
code the instructions that make the machine do the same.  `State` holds both,
with the counter of labels, the current line and the log; `Context` holds what
no operation changes.

`Op` is the monad of operations.  A failure leaves the state as it was when it
arose, so whatever was done before it stays done.
-/

namespace Lockstep

/-- What the operations on one body have built so far. -/
structure State where
  /-- The model: the types on the stack, the top first. -/
  entries : List ValueType
  /-- The code emitted so far. -/
  code : Array Instr
  /-- How many labels have been handed out. -/
  labels : Nat
  /-- The line of the program being compiled. -/
  line : UInt32
  /-- The log so far. -/
  notes : Array Note

namespace State

def initial : State := ⟨[], #[], 0, 0, #[]⟩

def size (s : State) : Nat := s.entries.length

/-- The slots that the entries take on the machine's stack. -/
def slots (s : State) : Nat := ValueType.totalSlots s.entries

/-- The types on the stack from the bottom up. -/
def bottomUp (s : State) : List ValueType := s.entries.reverse

end State

structure Body where
  source : String
  className : String
  callable : String
  deriving DecidableEq

/-- What operations consult and never change. -/
structure Context where
  registry : Registry
  settings : Settings
  body : Body

/-- An operation on the stack model and the code. -/
abbrev Op (α : Type) := ReaderT Context (EStateM Failure State) α

namespace Op

def run {α : Type} (op : Op α) (c : Context) (s : State) : EStateM.Result Failure State α :=
  EStateM.run (ReaderT.run op c) s

def fail {α : Type} (fault : Fault) : Op α := do
  let body := (← read).body
  let line := (← get).line
  throw ⟨fault, body.source, body.className, body.callable, line⟩

/-- The types on the stack, the top first. -/
def entries : Op (List ValueType) := return (← get).entries

/-- Puts other types on the stack, the top first. -/
def setEntries (ts : List ValueType) : Op Unit := modify fun s => { s with entries := ts }

def push (t : ValueType) : Op Unit := modify fun s => { s with entries := t :: s.entries }

def note (n : Note) : Op Unit := modify fun s => { s with notes := s.notes.push n }

/-- Appends an instruction to the code, with a note if emission is traced. -/
def emit (i : Instr) : Op Unit := do
  let c ← read
  if c.settings.traceEmission then
    note (.emitted c.body.callable (← get).line i)
  modify fun s => { s with code := s.code.push i }

def emitAll : List Instr → Op Unit
  | [] => pure ()
  | i :: rest => do
    emit i
    emitAll rest

/-- Hands out a number of fresh labels, and gives the first of them. -/
def freshLabels (count : Nat) : Op Nat := do
  let first := (← get).labels
  modify fun s => { s with labels := first + count }
  return first

def freshLabel : Op Label := return ⟨← freshLabels 1⟩

/-- Sets the line of the program being compiled. -/
def setLine (line : UInt32) : Op Unit := modify fun s => { s with line }

/-- Drops the code emitted so far; labels go on counting. -/
def clearCode : Op Unit := modify fun s => { s with code := #[] }

def support : Op Support := return (← read).settings.support

end Op

end Lockstep
