import Lockstep.Value.Prim

/-!
# Types of stack entries

The type of one value as the compiler sees it: a primitive, the box of a
primitive, a class or interface by its full name, or an array.  A box is a case
of its own, so that two types are equal exactly when they are the same term;
`ofClassName` keeps to that by folding the names of the boxing classes.

A type has three texts: the readable one (`text`), the descriptor that method
signatures are made of, and the internal name that type instructions carry.
-/

namespace Lockstep

/-- The type of a value on the operand stack. -/
inductive ValueType where
  | primitive (kind : Prim)
  | boxed (kind : Prim)
  | named (name : String)
  | array (component : ValueType)
  deriving DecidableEq, Repr

namespace ClassName

/-! ## Names of platform classes -/

def object : String := "java.lang.Object"
def string : String := "java.lang.String"
def classObject : String := "java.lang.Class"
def number : String := "java.lang.Number"
def enumeration : String := "java.lang.Enum"
def annotationRoot : String := "java.lang.annotation.Annotation"
def cloneable : String := "java.lang.Cloneable"
def serializable : String := "java.io.Serializable"
def comparable : String := "java.lang.Comparable"
def bigInteger : String := "java.math.BigInteger"
def bigDecimal : String := "java.math.BigDecimal"
def reference : String := "groovy.lang.Reference"

end ClassName

namespace ValueType

/-- The type of a class name: a box when the name is one of a boxing class. -/
def ofClassName (name : String) : ValueType :=
  match Prim.ofBoxName? name with
  | some kind => .boxed kind
  | none => .named name

/-! ## Types with a role of their own -/

def object : ValueType := .named ClassName.object
def string : ValueType := .named ClassName.string
def classObject : ValueType := .named ClassName.classObject
def boolean : ValueType := .primitive .boolean

/-! ## Questions about a type -/

def prim? : ValueType → Option Prim
  | .primitive kind => some kind
  | _ => none

def component? : ValueType → Option ValueType
  | .array component => some component
  | _ => none

def isPrimitive (t : ValueType) : Bool := t.prim?.isSome

def isArray (t : ValueType) : Bool := t.component?.isSome

/-- A class, and no box, of the given name. -/
def isNamed (name : String) (t : ValueType) : Bool := t = .named name

/-- The class at the root of the hierarchy. -/
def isObject (t : ValueType) : Bool := t.isNamed ClassName.object

/-- How the machine carries a value of the type. -/
def carrier : ValueType → Carrier
  | .primitive kind => .ofPrim kind
  | _ => .reference

def width : ValueType → Width
  | .primitive kind => kind.width
  | _ => .one

/-- The boxed form; what is no primitive is its own. -/
def box : ValueType → ValueType
  | .primitive kind => .boxed kind
  | t => t

/-- The primitive in a box; what is no box is its own. -/
def unbox : ValueType → ValueType
  | .boxed kind => .primitive kind
  | t => t

/-! ## Texts of a type -/

/-- The readable text: a keyword, a full name, or a component and brackets. -/
def text : ValueType → String
  | .primitive kind => kind.keyword
  | .boxed kind => kind.boxName
  | .named name => name
  | .array component => component.text ++ "[]"

def slashed (name : String) : String := name.map fun c => if c = '.' then '/' else c

/-- The descriptor: a letter, a slashed name from `L` to a semicolon, or a
bracket and the descriptor of the component. -/
def descriptor : ValueType → String
  | .primitive kind => kind.letter.toString
  | .boxed kind => "L" ++ slashed kind.boxName ++ ";"
  | .named name => "L" ++ slashed name ++ ";"
  | .array component => "[" ++ component.descriptor

/-- The name that type instructions carry: slashed for a class, and the
descriptor for an array or a primitive. -/
def internalName : ValueType → String
  | .boxed kind => slashed kind.boxName
  | .named name => slashed name
  | t => t.descriptor

end ValueType

end Lockstep
