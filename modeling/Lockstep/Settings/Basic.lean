import Lockstep.Instr.Basic

/-!
# Support classes and settings

Generated code calls into three support classes for what no single instruction
does: dynamic casts and unboxing, explicit coercion, and the cell that holds a
local shared with a closure.  Their internal names are settings; the methods
and their signatures are fixed.
-/

namespace Lockstep

/-- The internal names of the support classes. -/
structure Support where
  /-- The class of the dynamic casts. -/
  typeTransformation : String
  /-- The class of the explicit coercion. -/
  bytecodeAdapter : String
  /-- The class of the cells that closures share. -/
  referenceClass : String
  deriving DecidableEq

/-- The names of the standard support library. -/
def Support.standard : Support :=
  { typeTransformation :=
      "org/codehaus/groovy/runtime/typehandling/DefaultTypeTransformation"
    bytecodeAdapter := "org/codehaus/groovy/runtime/ScriptBytecodeAdapter"
    referenceClass := "groovy/lang/Reference" }

structure Settings where
  /-- Whether every emitted instruction is noted in the log. -/
  traceEmission : Bool
  support : Support
  deriving DecidableEq

/-- Nothing is traced, and the support library is the standard one. -/
def Settings.standard : Settings := ⟨false, .standard⟩

namespace Support

/-- A method of the class of the dynamic casts. -/
def transformation (s : Support) (name : String) (params : List ValueType)
    (result : ValueType) : Method :=
  ⟨.static, s.typeTransformation, name, params, some result⟩

/-- Turns any object into a primitive by the language's conversion rules. -/
def unbox (s : Support) (kind : Prim) : Method :=
  s.transformation (kind.keyword ++ "Unbox") [.object] (.primitive kind)

/-- Casts to the class given as second argument. -/
def castToType (s : Support) : Method :=
  s.transformation "castToType" [.object, .classObject] .object

/-- Casts to the enumeration given as second argument. -/
def castToEnum (s : Support) : Method :=
  s.transformation "castToEnum" [.object, .classObject] .object

def castToString (s : Support) : Method :=
  s.transformation "castToString" [.object] .string

def castToClass (s : Support) : Method :=
  s.transformation "castToClass" [.object] .classObject

/-- Coerces to the class given as second argument. -/
def asType (s : Support) : Method :=
  ⟨.static, s.bytecodeAdapter, "asType", [.object, .classObject], some .object⟩

def cellGet (s : Support) : Method :=
  ⟨.virtual, s.referenceClass, "get", [], some .object⟩

def cellSet (s : Support) : Method :=
  ⟨.virtual, s.referenceClass, "set", [.object], none⟩

def cellType (s : Support) : ValueType :=
  .ofClassName (s.referenceClass.map fun c => if c = '/' then '.' else c)

end Support

end Lockstep
