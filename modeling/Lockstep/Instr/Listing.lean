import Lockstep.Decimal.Shortest
import Lockstep.Instr.Basic
import Lockstep.Text.Quoted

/-!
# Listings

The text of each instruction, and the listing of a piece of code: a title line,
then one line for each instruction with its position in at least four digits.
Labels stand flush left and instructions are indented, as in assembly.
-/

namespace Lockstep

def Label.text (label : Label) : String := "L" ++ toString label.id

def Cond.name : Cond → String
  | .isZero => "IFEQ"
  | .isNonzero => "IFNE"
  | .isNull => "IFNULL"
  | .isNonnull => "IFNONNULL"

def Dispatch.name : Dispatch → String
  | .static => "INVOKESTATIC"
  | .virtual => "INVOKEVIRTUAL"
  | .special => "INVOKESPECIAL"

/-- The text of a pool constant: longs, floats and doubles carry a letter, and
strings are quoted. -/
def PoolConst.text : PoolConst → String
  | .int v => toString v.toInt
  | .long v => toString v.toInt ++ "L"
  | .float v => v.literal ++ "F"
  | .double v => v.literal ++ "D"
  | .string s => Text.quoteText s

namespace Instr

def name : Instr → String
  | .nullConst => "ACONST_NULL"
  | .intConst _ => "ICONST"
  | .bytePush _ => "BIPUSH"
  | .shortPush _ => "SIPUSH"
  | .longZero => "LCONST_0"
  | .longOne => "LCONST_1"
  | .floatZero => "FCONST_0"
  | .floatOne => "FCONST_1"
  | .floatTwo => "FCONST_2"
  | .doubleZero => "DCONST_0"
  | .doubleOne => "DCONST_1"
  | .poolConst _ => "LDC"
  | .pop => "POP"
  | .pop2 => "POP2"
  | .dup => "DUP"
  | .dup2 => "DUP2"
  | .dupX2 => "DUP_X2"
  | .dup2X1 => "DUP2_X1"
  | .dup2X2 => "DUP2_X2"
  | .swap => "SWAP"
  | .load _ _ => "LOAD"
  | .store _ _ => "STORE"
  | .convert op => op.name
  | .compareLong => "LCMP"
  | .compareFloat => "FCMPL"
  | .compareDouble => "DCMPL"
  | .box _ => "BOX"
  | .unbox _ => "UNBOX"
  | .checkCast _ => "CHECKCAST"
  | .new _ => "NEW"
  | .getStatic _ => "GETSTATIC"
  | .invoke m => m.dispatch.name
  | .classLiteral t => if t.isPrimitive then "GETSTATIC" else "LDC"
  | .jump cond _ => cond.name
  | .goto _ => "GOTO"
  | .mark _ => "LABEL"

/-- The internal name of the class that boxes a kind. -/
def boxOwner (kind : Prim) : String := (ValueType.boxed kind).internalName

/-- The text of an instruction.  Boxing and unboxing are calls, and the class
literal of a primitive is a field of its boxing class. -/
def text : Instr → String
  | .intConst v => "ICONST_" ++ (if v = -1 then "M1" else toString v.toInt)
  | .bytePush v => "BIPUSH " ++ toString v.toInt
  | .shortPush v => "SIPUSH " ++ toString v.toInt
  | .poolConst c => "LDC " ++ c.text
  | .load carrier index => carrier.letter.toString ++ "LOAD " ++ toString index.toNat
  | .store carrier index => carrier.letter.toString ++ "STORE " ++ toString index.toNat
  | .box kind =>
    "INVOKESTATIC " ++ boxOwner kind ++ ".valueOf(" ++ kind.letter.toString ++ ")" ++
      (ValueType.boxed kind).descriptor
  | .unbox kind =>
    "INVOKEVIRTUAL " ++ boxOwner kind ++ "." ++ kind.keyword ++ "Value()" ++
      kind.letter.toString
  | .checkCast t => "CHECKCAST " ++ t.internalName
  | .new t => "NEW " ++ t.internalName
  | .getStatic f => "GETSTATIC " ++ f.owner ++ "." ++ f.name ++ " : " ++ f.type.descriptor
  | .invoke m => m.dispatch.name ++ " " ++ m.owner ++ "." ++ m.name ++ m.descriptor
  | .classLiteral (.primitive kind) =>
    "GETSTATIC " ++ boxOwner kind ++ ".TYPE : Ljava/lang/Class;"
  | .classLiteral t => "LDC " ++ t.internalName ++ ".class"
  | .jump cond label => cond.name ++ " " ++ label.text
  | .goto label => "GOTO " ++ label.text
  | .mark label => label.text ++ ":"
  | i => i.name

/-- One line of a listing, without its end. -/
def line (position : Nat) (i : Instr) : String :=
  String.ofList (Text.padZeros 4 (Text.decimal position)) ++
    (if i.marked?.isSome then ": " else ":     ") ++ i.text

end Instr

/-- The listing of a piece of code under a title. -/
def listing (title : String) (code : List Instr) : String :=
  "== " ++ title ++ " ==\n" ++
    String.join (code.zipIdx.map fun (i, position) => i.line position ++ "\n")

end Lockstep
