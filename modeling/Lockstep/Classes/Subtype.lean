import Lockstep.Classes.Registry

/-!
# Subtyping

When a value of one type can be used as another with no instruction.  Primitive
types are related to themselves only, the root is above every reference, arrays
of references are covariant, and an array is below two interfaces by name.
Between classes it is a search through the direct supertypes.

A registry can hold cycles, so the search is bounded by what it can meet:
`search` carries the types that it has not yet visited, out of all that any
declaration mentions, and looks at the supertypes of a type only when it takes
the type off that list.
-/

namespace Lockstep.Registry

/-- Every type that is a direct supertype of some type. -/
def mentioned (r : Registry) : List ValueType :=
  arrayParents ++ r.classes.flatMap fun (_, info) => info.parents

def without (t : ValueType) (ts : List ValueType) : List ValueType := ts.filter (· ≠ t)

theorem length_without_lt {t : ValueType} {ts : List ValueType} (h : t ∈ ts) :
    (without t ts).length < ts.length :=
  List.length_filter_lt_length_iff_exists.mpr ⟨t, h, by simp⟩

/-- Looks for a type among queued ones and what is above them, given the types
not yet visited. -/
def search (r : Registry) (goal : ValueType) : List ValueType → List ValueType → Bool
  | _, [] => false
  | unvisited, t :: queue =>
    if t = goal then true
    else if t ∈ unvisited then
      search r goal (without t unvisited) (queue ++ r.supertypes t)
    else search r goal unvisited queue
termination_by unvisited queue => (unvisited.length, queue.length)
decreasing_by
  · exact Prod.Lex.left _ _ (length_without_lt ‹_›)
  · exact Prod.Lex.right _ (by simp)

/-- Whether a type is reached from another by one or more steps to a direct
supertype. -/
def isAbove (r : Registry) (sup sub : ValueType) : Bool :=
  r.search sup r.mentioned (r.supertypes sub)

/-- Whether a value of one type can be used as another with no instruction. -/
def isSubtype (r : Registry) : ValueType → ValueType → Bool
  | .array a, .array b =>
    .array a = ValueType.array b ||
      (!a.isPrimitive && !b.isPrimitive && r.isSubtype a b)
  | sub, sup =>
    if sub = sup then true
    else if sub.isPrimitive || sup.isPrimitive then false
    else if sup.isObject then true
    else if sub.isArray then
      sup.isNamed ClassName.cloneable || sup.isNamed ClassName.serializable
    else if sup.isArray then false
    else r.isAbove sup sub

/-- Whether a value needs no conversion: the types are equal, or arrays with
components that need none, or subtypes among references. -/
def isCompatible (r : Registry) : ValueType → ValueType → Bool
  | .array a, .array b =>
    .array a = ValueType.array b || r.isCompatible a b || r.isSubtype (.array a) (.array b)
  | source, target =>
    source = target ||
      (!source.isPrimitive && !target.isPrimitive && r.isSubtype source target)

end Lockstep.Registry
