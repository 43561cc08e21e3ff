import Lockstep.Instr.Listing

/-!
# Notes

What the operations write to the log.  A note is kept as what it says; its
level and its wording are read off it.
-/

namespace Lockstep

inductive Level where
  | trace
  | debug
  | info
  | warn
  deriving DecidableEq, Repr

def Level.name : Level → String
  | .trace => "TRACE"
  | .debug => "DEBUG"
  | .info => "INFO"
  | .warn => "WARN"

/-- The text of an operand stack, given its entries from the bottom up. -/
def stackText (entries : List ValueType) : String :=
  "OperandStack(size=" ++ toString entries.length ++ ":[" ++
    ", ".intercalate (entries.map ValueType.text) ++ "])"

inductive Note where
  /-- An instruction was emitted for a callable at a line. -/
  | emitted (callable : String) (line : UInt32) (i : Instr)
  /-- Entries were dropped without an instruction. -/
  | removed (amount left : Nat)
  /-- A primitive is converted by instructions. -/
  | numeric (source target : Prim) (ops : List NumOp)
  /-- A conversion can round. -/
  | lossy (source target : Prim)
  /-- There is no instruction for a conversion between primitives. -/
  | boxing (source target : Prim)
  /-- A coercion calls into the support library. -/
  | coercing (source target : ValueType)
  /-- A trace was replayed to its end. -/
  | replayed (steps instructions : Nat) (entries : List ValueType)

namespace Note

def level : Note → Level
  | .emitted .. | .removed .. => .trace
  | .numeric .. | .boxing .. | .coercing .. => .debug
  | .lossy .. => .warn
  | .replayed .. => .info

def message : Note → String
  | .emitted callable line i => callable ++ ":" ++ toString line.toNat ++ " " ++ i.text
  | .removed amount left =>
    "removed " ++ toString amount ++ " operands, " ++ toString left ++ " left"
  | .numeric source target ops =>
    "numeric conversion " ++ source.keyword ++ " -> " ++ target.keyword ++ ": [" ++
      ", ".intercalate (ops.map NumOp.name) ++ "]"
  | .lossy source target =>
    source.keyword ++ " -> " ++ target.keyword ++ " may lose precision beyond 24 bits"
  | .boxing source target =>
    "no numeric conversion " ++ source.keyword ++ " -> " ++ target.keyword ++ ", boxing"
  | .coercing source target =>
    "coercing " ++ source.text ++ " to " ++ target.text ++ " through the runtime"
  | .replayed steps instructions entries =>
    "replayed " ++ toString steps ++ " steps: " ++ toString instructions ++
      " instructions, " ++ stackText entries

end Note

end Lockstep
