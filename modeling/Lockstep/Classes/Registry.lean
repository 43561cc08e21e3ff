import Lockstep.Value.ValueType

/-!
# The class registry

What the generator knows about classes: for a name its sort, superclass and
interfaces, and for an alias the type it stands for.  A later declaration of a
name hides an earlier one.

An unknown class is a plain class directly below the root.  `supertypes` gives
the direct supertypes of any type; `Lockstep.Classes.Subtype` builds on nothing
else.
-/

namespace Lockstep

/-- What sort of class a declaration makes. -/
inductive ClassSort where
  | ordinary
  | interface
  | enum
  | annotationType
  deriving DecidableEq, Repr

structure ClassInfo where
  sort : ClassSort
  superclass : Option ValueType
  interfaces : List ValueType
  deriving DecidableEq

/-- The direct supertypes of a declaration, the superclass first. -/
def ClassInfo.parents (info : ClassInfo) : List ValueType :=
  info.superclass.toList ++ info.interfaces

/-- Declared classes and aliases, the latest first. -/
structure Registry where
  classes : List (String × ClassInfo)
  aliases : List (String × ValueType)

namespace Registry

def empty : Registry := ⟨[], []⟩

/-! ## Declaring -/

/-- Declares a class, hiding any earlier declaration of its name. -/
def declare (r : Registry) (name : String) (info : ClassInfo) : Registry :=
  { r with classes := (name, info) :: r.classes }

def addAlias (r : Registry) (name : String) (target : ValueType) : Registry :=
  { r with aliases := (name, target) :: r.aliases }

/-- Declares a class by names.  Without a superclass it is below the root,
unless it is the root. -/
def declareClass (r : Registry) (name : String) (superclass : Option String)
    (interfaces : List String) : Registry :=
  let parent :=
    match superclass with
    | some s => some (ValueType.ofClassName s)
    | none => if name = ClassName.object then none else some .object
  r.declare name ⟨.ordinary, parent, interfaces.map .ofClassName⟩

def declareInterface (r : Registry) (name : String) (parents : List String) : Registry :=
  r.declare name ⟨.interface, some .object, parents.map .ofClassName⟩

def declareEnum (r : Registry) (name : String) (interfaces : List String) : Registry :=
  r.declare name
    ⟨.enum, some (.named ClassName.enumeration), interfaces.map .ofClassName⟩

def declareAnnotationType (r : Registry) (name : String) : Registry :=
  r.declare name ⟨.annotationType, some .object, [.named ClassName.annotationRoot]⟩

/-! ## Looking up -/

/-- The declaration of a type that has a class name. -/
def info? (r : Registry) : ValueType → Option ClassInfo
  | .boxed kind => r.classes.lookup kind.boxName
  | .named name => r.classes.lookup name
  | _ => none

/-- The sort of a type; what is not declared is ordinary. -/
def sort (r : Registry) (t : ValueType) : ClassSort :=
  ((r.info? t).map ClassInfo.sort).getD .ordinary

/-- Whether a type is declared as an enumeration. -/
def isEnum (r : Registry) (t : ValueType) : Bool := r.sort t = .enum

def arrayParents : List ValueType :=
  [.object, .named ClassName.cloneable, .named ClassName.serializable]

/-- The direct supertypes of a type.  The root and the primitives have none,
whatever is declared. -/
def supertypes (r : Registry) (t : ValueType) : List ValueType :=
  if t.isObject || t.isPrimitive then []
  else
    match r.info? t with
    | some info => info.parents
    | none => if t.isArray then arrayParents else [.object]

/-! ## Aliases -/

/-- Follows aliases, those of array components included, for a number of steps:
each alias and each array layer takes one. -/
def resolve (r : Registry) : Nat → ValueType → ValueType
  | 0, t => t
  | steps + 1, .named name =>
    match r.aliases.lookup name with
    | some target => r.resolve steps target
    | none => .named name
  | steps + 1, .array component => .array (r.resolve steps component)
  | _ + 1, t => t

def aliasSteps : Nat := 32

/-- The type that a type stands for, within the limit on steps. -/
def canonical (r : Registry) (t : ValueType) : ValueType := r.resolve aliasSteps t

end Registry

end Lockstep
