import Lockstep.Classes.Registry

/-!
# The platform classes

The classes that every program can name: the root, strings, class objects,
numbers and their boxes, the collection interfaces with two implementations,
and the cell that holds a local shared with a closure.
-/

namespace Lockstep.Registry

/-- The interfaces of the platform with the interfaces they extend. -/
def platformInterfaces : List (String × List String) :=
  [(ClassName.serializable, []), (ClassName.cloneable, []), (ClassName.comparable, []),
   ("java.lang.CharSequence", []), ("java.lang.Iterable", []),
   ("java.util.Collection", ["java.lang.Iterable"]),
   ("java.util.List", ["java.util.Collection"]),
   ("java.util.Set", ["java.util.Collection"]),
   ("java.util.Map", []), (ClassName.annotationRoot, [])]

/-- The classes of the platform with superclass and interfaces. -/
def platformClasses : List (String × Option String × List String) :=
  [(ClassName.object, none, []),
   (ClassName.string, some ClassName.object,
     [ClassName.serializable, ClassName.comparable, "java.lang.CharSequence"]),
   (ClassName.classObject, some ClassName.object, [ClassName.serializable]),
   (ClassName.number, some ClassName.object, [ClassName.serializable]),
   (ClassName.bigInteger, some ClassName.number, [ClassName.comparable]),
   (ClassName.bigDecimal, some ClassName.number, [ClassName.comparable]),
   (ClassName.enumeration, some ClassName.object,
     [ClassName.comparable, ClassName.serializable]),
   (ClassName.reference, some ClassName.object, [ClassName.serializable]),
   ("java.util.ArrayList", some ClassName.object,
     ["java.util.List", ClassName.serializable]),
   ("java.util.HashMap", some ClassName.object,
     ["java.util.Map", ClassName.serializable])]

/-- The boxing classes: the numeric ones are numbers, the other two are not. -/
def boxParent : Prim → String
  | .boolean | .char => ClassName.object
  | _ => ClassName.number

/-- The registry of the platform classes. -/
def platform : Registry :=
  let interfaces := platformInterfaces.foldl
    (fun r (name, parents) => r.declareInterface name parents) empty
  let classes := platformClasses.foldl
    (fun r (name, superclass, parents) => r.declareClass name superclass parents) interfaces
  Prim.all.foldl
    (fun r kind => r.declareClass kind.boxName (some (boxParent kind))
      [ClassName.serializable, ClassName.comparable]) classes

end Lockstep.Registry
