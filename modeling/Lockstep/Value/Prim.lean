/-!
# Primitive kinds

The eight primitive kinds of the machine, each with its keyword in source
texts, its letter in descriptors, the class that boxes it, and its width on the
operand stack.
-/

namespace Lockstep

/-- How many slots a value takes on the machine's stack. -/
inductive Width where
  | one
  | two
  deriving DecidableEq, Repr

def Width.slots : Width → Nat
  | .one => 1
  | .two => 2

inductive Prim where
  | boolean
  | byte
  | char
  | short
  | int
  | long
  | float
  | double
  deriving DecidableEq, Repr

namespace Prim

def all : List Prim := [.boolean, .byte, .char, .short, .int, .long, .float, .double]

/-- The kinds that take part in numeric conversion: all but `boolean`. -/
def numeric : List Prim := all.tail

def keyword : Prim → String
  | .boolean => "boolean"
  | .byte => "byte"
  | .char => "char"
  | .short => "short"
  | .int => "int"
  | .long => "long"
  | .float => "float"
  | .double => "double"

def letter : Prim → Char
  | .boolean => 'Z'
  | .byte => 'B'
  | .char => 'C'
  | .short => 'S'
  | .int => 'I'
  | .long => 'J'
  | .float => 'F'
  | .double => 'D'

/-- The full name of the class that boxes a kind. -/
def boxName : Prim → String
  | .boolean => "java.lang.Boolean"
  | .byte => "java.lang.Byte"
  | .char => "java.lang.Character"
  | .short => "java.lang.Short"
  | .int => "java.lang.Integer"
  | .long => "java.lang.Long"
  | .float => "java.lang.Float"
  | .double => "java.lang.Double"

def ofKeyword? (name : String) : Option Prim := all.find? (·.keyword = name)

def ofBoxName? (name : String) : Option Prim := all.find? (·.boxName = name)

/-- Only `long` and `double` take two slots. -/
def width : Prim → Width
  | .long | .double => .two
  | _ => .one

/-- The kinds that live on the stack as an `int` and convert as one. -/
def isIntLike : Prim → Bool
  | .byte | .char | .short | .int => true
  | _ => false

end Prim

/-- What the machine tells apart on its stack: the small kinds are ints there,
and everything that is not primitive is a reference. -/
inductive Carrier where
  | int
  | long
  | float
  | double
  | reference
  deriving DecidableEq, Repr

namespace Carrier

def ofPrim : Prim → Carrier
  | .long => .long
  | .float => .float
  | .double => .double
  | _ => .int

def width : Carrier → Width
  | .long | .double => .two
  | _ => .one

/-- The letter that begins the load and store mnemonics. -/
def letter : Carrier → Char
  | .int => 'I'
  | .long => 'L'
  | .float => 'F'
  | .double => 'D'
  | .reference => 'A'

end Carrier

end Lockstep
