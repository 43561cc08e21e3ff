import Lockstep.Flow.Defect

/-!
# Control-flow graphs

Code cut into blocks that control enters only at their first instruction and
leaves only after their last.  A block starts at the beginning, at every mark,
and after every jump.

A graph exists when every label is marked at most once and every jump names a
label that is marked; the first violation, of the first rule before the second,
is the defect that is reported.
-/

namespace Lockstep.Flow

/-- A block: its positions from `start` up to, but not including, `stop`, and
the indices of the blocks that control can go to from its end. -/
structure Block where
  start : Nat
  stop : Nat
  successors : List Nat
  deriving DecidableEq, Repr

/-- The blocks of a piece of code in order. -/
structure Graph where
  blocks : List Block
  deriving DecidableEq, Repr

/-! ## Labels -/

/-- The position at which a label is marked first. -/
def markOf? (code : List Instr) (label : Label) : Option Nat :=
  code.findIdx? fun i => i.marked? = some label

/-- The first mark of a label that is among those seen or marked before it. -/
def duplicate? (position : Nat) (seen : List Label) : List Instr → Option (Nat × Label)
  | [] => none
  | i :: rest =>
    match i.marked? with
    | none => duplicate? (position + 1) seen rest
    | some label =>
      if label ∈ seen then some (position, label)
      else duplicate? (position + 1) (label :: seen) rest

/-- The first jump to a label that is not marked in the whole code. -/
def dangling? (code : List Instr) (position : Nat) : List Instr → Option (Nat × Label)
  | [] => none
  | i :: rest =>
    match i.target? with
    | none => dangling? code (position + 1) rest
    | some label =>
      if (markOf? code label).isNone then some (position, label)
      else dangling? code (position + 1) rest

/-! ## Blocks -/

/-- The positions at which blocks start, for code that begins at a position and
may come right after a jump. -/
def startsFrom (position : Nat) (afterJump : Bool) : List Instr → List Nat
  | [] => []
  | i :: rest =>
    let later := startsFrom (position + 1) i.target?.isSome rest
    if afterJump || i.marked?.isSome then position :: later else later

/-- The positions at which the blocks of a piece of code start. -/
def starts (code : List Instr) : List Nat := startsFrom 0 true code

/-- The first and the past-the-end position of each block. -/
def spans (code : List Instr) : List (Nat × Nat) :=
  (starts code).zip ((starts code).tail ++ [code.length])

/-- The index of the span that contains a position. -/
def spanAt? (code : List Instr) (position : Nat) : Option Nat :=
  (spans code).findIdx? fun (start, stop) => start ≤ position && position < stop

/-- The index of the block in which a label is marked. -/
def blockOf? (code : List Instr) (label : Label) : Option Nat :=
  (markOf? code label).bind (spanAt? code)

/-- Where control can go after the last instruction of a block that ends just
before a position: the target of a jump first, then the next block unless it is
the same. -/
def successors (code : List Instr) (stop : Nat) : List Nat :=
  let next := (spanAt? code stop).toList
  match code[stop - 1]? with
  | some (.goto label) => (blockOf? code label).toList
  | some (.jump _ label) =>
    let taken := (blockOf? code label).toList
    taken ++ next.filter (· ∉ taken)
  | _ => next

/-- The control-flow graph of a piece of code, or the first defect of its
labels. -/
def Graph.ofCode (code : List Instr) : Except Defect Graph :=
  match duplicate? 0 [] code with
  | some (position, label) => .error (.duplicateLabel position label)
  | none =>
    match dangling? code 0 code with
    | some (position, label) => .error (.unknownLabel position label)
    | none =>
      .ok ⟨(spans code).map fun (start, stop) => ⟨start, stop, successors code stop⟩⟩

/-- The index of the block that contains a position. -/
def Graph.blockAt? (g : Graph) (position : Nat) : Option Nat :=
  g.blocks.findIdx? fun b => b.start ≤ position && position < b.stop

end Lockstep.Flow
