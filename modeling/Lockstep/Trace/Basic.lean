import Lockstep.Classes.Platform
import Lockstep.Stack.Literal
import Lockstep.Stack.Local
import Lockstep.Stack.Truth
import Lockstep.Trace.Aliases

/-!
# Traces

A trace is the sequence of operations that a code generator performs on the
stack while it walks through one body, with the classes and aliases that the
body refers to beyond the platform.
-/

namespace Lockstep

inductive Step where
  /-- Records a value that was produced elsewhere. -/
  | push (type : ValueType)
  | pop
  | popDownTo (mark : UInt64)
  /-- Forgets values that were consumed elsewhere. -/
  | remove (amount : UInt64)
  /-- Puts a type in the place of a number of entries. -/
  | replace (type : ValueType) (n : UInt64)
  | dup
  | swap
  | box
  | cast (type : ValueType)
  | coerce (type : ValueType)
  | castToBool (mark : UInt64) (ifEmpty : Bool)
  | constant (value : Literal) (type : ValueType)
  | loadVar (var : Variable) (cellItself : Bool)
  | storeVar (var : Variable)
  | pushBool (value : Bool)
  /-- Sets the line of the program. -/
  | line (line : UInt32)
  deriving DecidableEq

namespace Step

/-- Whether an operation changes the model and emits nothing. -/
def isModelOnly : Step → Bool
  | .push _ | .remove _ | .replace _ _ => true
  | _ => false

def perform : Step → Op Unit
  | .push t => Op.push t
  | .pop => Op.pop
  | .popDownTo mark => Op.popDownTo mark.toNat
  | .remove amount => Op.remove amount.toNat
  | .replace t n => Op.replaceMany t n.toNat
  | .dup => Op.dup
  | .swap => Op.swap
  | .box => discard Op.box
  | .cast t => Op.cast t
  | .coerce t => Op.coerce t
  | .castToBool mark ifEmpty => Op.castToBool mark.toNat ifEmpty
  | .constant value t => Op.pushLiteral value t
  | .loadVar v cellItself => Op.loadVariable v cellItself
  | .storeVar v => Op.storeVariable v
  | .pushBool value => Op.pushBool value
  | .line n => Op.setLine n

end Step

structure ClassDecl where
  name : String
  sort : ClassSort
  superclass : Option ValueType
  interfaces : List ValueType
  deriving DecidableEq

/-- The declaration as a registry keeps it: an enumeration without a superclass
is below the class of all enumerations, anything else below the root. -/
def ClassDecl.info (d : ClassDecl) : ClassInfo :=
  let parent :=
    match d.superclass, d.sort with
    | some t, _ => t
    | none, .enum => .named ClassName.enumeration
    | none, _ => .object
  ⟨d.sort, some parent, d.interfaces⟩

structure Trace where
  source : String
  className : String
  callable : String
  classes : List ClassDecl
  aliases : Aliases
  steps : List Step
  deriving DecidableEq

namespace Trace

/-- Whether some operation changes the model and emits nothing. -/
def hasModelOnlySteps (t : Trace) : Bool := t.steps.any Step.isModelOnly

/-- A text, or another in its place if it is empty. -/
def orElse (s other : String) : String := if s.isEmpty then other else s

/-- The body of a trace, with names for what it leaves out. -/
def body (t : Trace) : Body :=
  { source := orElse t.source "<trace>"
    className := orElse t.className "Script"
    callable := orElse t.callable "run()Ljava/lang/Object;" }

/-- The platform classes and what a trace declares. -/
def registry (t : Trace) : Registry :=
  let classes := t.classes.foldl (fun r d => r.declare d.name d.info) .platform
  t.aliases.entries.foldl (fun r (name, target) => r.addAlias name target) classes

end Trace

end Lockstep
