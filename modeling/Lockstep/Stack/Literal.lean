import Lockstep.Stack.Shuffle

/-!
# Literals

A literal of the program and the instructions that load it.  Every kind has its
shortest load: dedicated instructions for the smallest values, then the
narrowest immediate that holds the value, then the constant pool.

Floating-point zero is told by its bits, so that negative zero keeps its sign.
-/

namespace Lockstep

open Lockstep.Decimal

/-- A literal as the front end resolved it. -/
inductive Literal where
  | null
  | boolean (value : Bool)
  | byte (value : Int8)
  /-- A UTF-16 code unit. -/
  | char (unit : UInt16)
  | short (value : Int16)
  | int (value : Int32)
  | long (value : Int64)
  | float (value : Binary32)
  | double (value : Binary64)
  | string (value : String)
  /-- An integer of any size, by its decimal digits. -/
  | bigInteger (digits : String)
  /-- A decimal number of any precision, by its digits. -/
  | bigDecimal (digits : String)
  /-- Any other object, which no instruction loads. -/
  | object (className text : String)
  deriving DecidableEq

namespace Literal

def text : Literal → String
  | .null => "null"
  | .boolean v => toString v
  | .byte v => toString v.toInt
  | .char unit => Text.quoteUnit unit
  | .short v => toString v.toInt
  | .int v => toString v.toInt
  | .long v => toString v.toInt ++ "L"
  | .float v => v.literal ++ "F"
  | .double v => v.literal ++ "D"
  | .string s => Text.quoteText s
  | .bigInteger digits | .bigDecimal digits => digits ++ "G"
  | .object className text => className ++ "(" ++ text ++ ")"

/-! ## Loads -/

def intLoad (value : Int32) : Instr :=
  let n := value.toInt
  if 0 ≤ n ∧ n ≤ 5 then .intConst value.toInt8
  else if -128 ≤ n ∧ n ≤ 127 then .bytePush value.toInt8
  else if -32768 ≤ n ∧ n ≤ 32767 then .shortPush value.toInt16
  else .poolConst (.int value)

def longLoad (value : Int64) : Instr :=
  if value = 0 then .longZero
  else if value = 1 then .longOne
  else .poolConst (.long value)

def floatLoad (value : Binary32) : Instr :=
  if value.bits = 0 then .floatZero
  else if value.bits = 0x3F800000 then .floatOne
  else if value.bits = 0x40000000 then .floatTwo
  else .poolConst (.float value)

def doubleLoad (value : Binary64) : Instr :=
  if value.bits = 0 then .doubleZero
  else if value.bits = 0x3FF0000000000000 then .doubleOne
  else .poolConst (.double value)

/-- The load of a literal as a primitive of a kind; the literal has to be of
exactly that kind. -/
def primLoad? : Prim → Literal → Option Instr
  | .boolean, .boolean v => some (.intConst (if v then 1 else 0))
  | .byte, .byte v => some (intLoad v.toInt32)
  | .char, .char unit => some (intLoad unit.toUInt32.toInt32)
  | .short, .short v => some (intLoad v.toInt32)
  | .int, .int v => some (intLoad v)
  | .long, .long v => some (longLoad v)
  | .float, .float v => some (floatLoad v)
  | .double, .double v => some (doubleLoad v)
  | _, _ => none

/-- The instructions that make an object of a class from its text. -/
def construct (className digits : String) : List Instr :=
  let type := ValueType.ofClassName className
  [.new type, .dup, .poolConst (.string digits),
   .invoke ⟨.special, type.internalName, "<init>", [.string], none⟩]

def sharedBox (value : Bool) : Field :=
  ⟨(ValueType.boxed .boolean).internalName, if value then "TRUE" else "FALSE",
   .boxed .boolean⟩

/-- The load of a literal as a reference that is no box. -/
def referenceLoad? : Literal → Option (List Instr)
  | .bigInteger digits => some (construct ClassName.bigInteger digits)
  | .bigDecimal digits => some (construct ClassName.bigDecimal digits)
  | .string s => some [.poolConst (.string s)]
  | _ => none

end Literal

namespace Op

/-- Loads a literal as a primitive of a kind, without a change of the model. -/
def loadPrim (value : Literal) (kind : Prim) (declared : ValueType) : Op Unit :=
  match Literal.primLoad? kind value with
  | some i => emit i
  | none => fail (.constantTypeMismatch value.text declared)

/-- Loads a literal under its declared type.  The null literal is an object
whatever it is declared as.  A literal declared as a box is loaded as the
primitive and then boxed, but a truth value comes from one of two shared
boxes. -/
def pushLiteral (value : Literal) (declared : ValueType) : Op Unit := do
  match value, declared with
  | .null, _ =>
    emit .nullConst
    push .object
  | .boolean v, .boxed _ =>
    emit (.getStatic (Literal.sharedBox v))
    push declared
  | _, .primitive kind =>
    loadPrim value kind declared
    push declared
  | _, .boxed kind =>
    loadPrim value kind declared
    push (.primitive kind)
    discard box
  | _, _ =>
    match value.referenceLoad? with
    | some code =>
      emitAll code
      push declared
    | none => fail (.unsupportedConstant value.text declared)

end Op

end Lockstep
