import Lockstep.Decimal.Binary
import Lockstep.Instr.NumOp
import Lockstep.Value.ValueType

/-!
# Instructions

The abstract instructions that are handed to a bytecode writer.  Each carries
its immediates as typed fields, so that its effect on the machine's stack,
counted in slots, can be read off (`Instr.effect`).

The duplicating instructions count as popping the slots that they reorder and
pushing them back with the copy; an underflow of any of the slots they touch is
then an underflow of the effect.
-/

namespace Lockstep

open Lockstep.Decimal

structure Label where
  id : Nat
  deriving DecidableEq, Repr

/-- When a conditional jump is taken, by the value it consumes: an int that is
zero or not, or a reference that is null or not. -/
inductive Cond where
  | isZero
  | isNonzero
  | isNull
  | isNonnull
  deriving DecidableEq, Repr

/-- A constant that is loaded from the constant pool. -/
inductive PoolConst where
  | int (value : Int32)
  | long (value : Int64)
  | float (value : Binary32)
  | double (value : Binary64)
  | string (value : String)
  deriving DecidableEq

inductive Dispatch where
  | static
  | virtual
  | special
  deriving DecidableEq, Repr

/-- A resolved method; the owner is an internal name, and no result is `void`. -/
structure Method where
  dispatch : Dispatch
  owner : String
  name : String
  params : List ValueType
  result : Option ValueType
  deriving DecidableEq

/-- A resolved static field; the owner is an internal name. -/
structure Field where
  owner : String
  name : String
  type : ValueType
  deriving DecidableEq

inductive Instr where
  -- constants
  | nullConst
  | intConst (value : Int8)
  | bytePush (value : Int8)
  | shortPush (value : Int16)
  | longZero
  | longOne
  | floatZero
  | floatOne
  | floatTwo
  | doubleZero
  | doubleOne
  | poolConst (value : PoolConst)
  -- shuffling
  | pop
  | pop2
  | dup
  | dup2
  | dupX2
  | dup2X1
  | dup2X2
  | swap
  -- locals
  | load (carrier : Carrier) (index : UInt16)
  | store (carrier : Carrier) (index : UInt16)
  -- conversion and comparison
  | convert (op : NumOp)
  | compareLong
  | compareFloat
  | compareDouble
  | box (kind : Prim)
  | unbox (kind : Prim)
  | checkCast (type : ValueType)
  -- objects and calls
  | new (type : ValueType)
  | getStatic (field : Field)
  | invoke (method : Method)
  | classLiteral (type : ValueType)
  -- control flow
  | jump (cond : Cond) (label : Label)
  | goto (label : Label)
  | mark (label : Label)
  deriving DecidableEq

/-- The slots that an instruction pops and those that it then pushes. -/
structure Effect where
  pops : Nat
  pushes : Nat
  deriving DecidableEq, Repr

namespace ValueType

def slots (t : ValueType) : Nat := t.width.slots

def totalSlots : List ValueType → Nat
  | [] => 0
  | t :: rest => t.slots + totalSlots rest

end ValueType

def PoolConst.slots : PoolConst → Nat
  | .long _ | .double _ => 2
  | _ => 1

namespace Method

/-- The slots of the arguments, the receiver included. -/
def argumentSlots (m : Method) : Nat :=
  (if m.dispatch = .static then 0 else 1) + ValueType.totalSlots m.params

def resultSlots (m : Method) : Nat := (m.result.map ValueType.slots).getD 0

/-- The descriptor: the parameters between parentheses, then the result. -/
def descriptor (m : Method) : String :=
  "(" ++ String.join (m.params.map ValueType.descriptor) ++ ")" ++
    (m.result.map ValueType.descriptor).getD "V"

end Method

namespace Instr

/-- The effect of an instruction on the machine's stack. -/
def effect : Instr → Effect
  | .nullConst | .intConst _ | .bytePush _ | .shortPush _ => ⟨0, 1⟩
  | .longZero | .longOne | .doubleZero | .doubleOne => ⟨0, 2⟩
  | .floatZero | .floatOne | .floatTwo => ⟨0, 1⟩
  | .poolConst c => ⟨0, c.slots⟩
  | .pop => ⟨1, 0⟩
  | .pop2 => ⟨2, 0⟩
  | .dup => ⟨1, 2⟩
  | .dup2 => ⟨2, 4⟩
  | .dupX2 => ⟨3, 4⟩
  | .dup2X1 => ⟨3, 5⟩
  | .dup2X2 => ⟨4, 6⟩
  | .swap => ⟨2, 2⟩
  | .load carrier _ => ⟨0, carrier.width.slots⟩
  | .store carrier _ => ⟨carrier.width.slots, 0⟩
  | .convert op => ⟨op.source.width.slots, op.target.width.slots⟩
  | .compareLong | .compareDouble => ⟨4, 1⟩
  | .compareFloat => ⟨2, 1⟩
  | .box kind => ⟨kind.width.slots, 1⟩
  | .unbox kind => ⟨1, kind.width.slots⟩
  | .checkCast _ => ⟨1, 1⟩
  | .new _ | .classLiteral _ => ⟨0, 1⟩
  | .getStatic field => ⟨0, field.type.slots⟩
  | .invoke m => ⟨m.argumentSlots, m.resultSlots⟩
  | .jump _ _ => ⟨1, 0⟩
  | .goto _ | .mark _ => ⟨0, 0⟩

/-- The label that control may go to after an instruction. -/
def target? : Instr → Option Label
  | .jump _ label | .goto label => some label
  | _ => none

def marked? : Instr → Option Label
  | .mark label => some label
  | _ => none

end Instr

end Lockstep
