import Lockstep.Value.Prim

/-!
# Numeric conversions

The fifteen conversion instructions, and which of them lead from one primitive
kind to another.  `int` is the hub: the small kinds already live as ints and
convert exactly as `int` does, and a wide kind becomes a small one by way of
`int`.  No conversion leads to or from `boolean`.
-/

namespace Lockstep

inductive NumOp where
  | i2l | i2f | i2d | i2b | i2c | i2s
  | l2i | l2f | l2d
  | f2i | f2l | f2d
  | d2i | d2l | d2f
  deriving DecidableEq, Repr

namespace NumOp

/-- The kind that an instruction takes from the stack. -/
def source : NumOp → Prim
  | .i2l | .i2f | .i2d | .i2b | .i2c | .i2s => .int
  | .l2i | .l2f | .l2d => .long
  | .f2i | .f2l | .f2d => .float
  | .d2i | .d2l | .d2f => .double

/-- The kind that an instruction leaves on the stack. -/
def target : NumOp → Prim
  | .i2b => .byte
  | .i2c => .char
  | .i2s => .short
  | .l2i | .f2i | .d2i => .int
  | .i2l | .f2l | .d2l => .long
  | .i2f | .l2f | .d2f => .float
  | .i2d | .l2d | .f2d => .double

def name : NumOp → String
  | .i2l => "I2L" | .i2f => "I2F" | .i2d => "I2D"
  | .i2b => "I2B" | .i2c => "I2C" | .i2s => "I2S"
  | .l2i => "L2I" | .l2f => "L2F" | .l2d => "L2D"
  | .f2i => "F2I" | .f2l => "F2L" | .f2d => "F2D"
  | .d2i => "D2I" | .d2l => "D2L" | .d2f => "D2F"

def all : List NumOp :=
  [.i2l, .i2f, .i2d, .i2b, .i2c, .i2s, .l2i, .l2f, .l2d, .f2i, .f2l, .f2d,
   .d2i, .d2l, .d2f]

end NumOp

namespace Prim

/-- What an int on the stack needs to become a value of a kind. -/
def fromInt : Prim → List NumOp
  | .boolean | .int => []
  | .byte => [.i2b]
  | .char => [.i2c]
  | .short => [.i2s]
  | .long => [.i2l]
  | .float => [.i2f]
  | .double => [.i2d]

/-- What a value of a kind needs to become an int on the stack. -/
def toInt : Prim → List NumOp
  | .long => [.l2i]
  | .float => [.f2i]
  | .double => [.d2i]
  | _ => []

/-- The conversions from one kind to another, or nothing if there is no numeric
path between them. -/
def conversion? (source target : Prim) : Option (List NumOp) :=
  if source = target then some []
  else
    match source, target with
    | .boolean, _ | _, .boolean => none
    | .long, .float => some [.l2f]
    | .long, .double => some [.l2d]
    | .float, .long => some [.f2l]
    | .float, .double => some [.f2d]
    | .double, .long => some [.d2l]
    | .double, .float => some [.d2f]
    | _, _ => some (source.toInt ++ target.fromInt)

/-- A conversion to `float` from an integral kind: the target keeps no more than
24 significant bits. -/
def mayLosePrecision (source target : Prim) : Bool :=
  target = .float && (source.isIntLike || source = .long)

end Prim

end Lockstep
