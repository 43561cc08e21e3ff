import Lockstep.Classes.Subtype
import Lockstep.Stack.Shuffle

/-!
# Conversions

Turning the top value into one of another type.  The implicit conversion is
that of an assignment; the explicit one is what the program asks for with a
cast expression, and may run code of the support library.  Both end with the
top entry retyped to what the target stands for, and neither emits anything
when the value can be used as it is.

What the language decides when the program runs is delegated to the support
library: `coerce`, `castReference` and `referenceTruth` emit those calls.
-/

namespace Lockstep

namespace Support

/-- Casts the value on top without looking at the model: nothing for the root,
an unboxing call for a primitive, and a checked cast for all else. -/
def dynamicCast (s : Support) (target : ValueType) : List Instr :=
  if target.isObject then []
  else
    match target.prim? with
    | some kind => [.invoke (s.unbox kind)]
    | none => [.checkCast target]

/-- Calls the helper that coerces to a type, then casts to it. -/
def coercion (s : Support) (target : ValueType) : List Instr :=
  [.classLiteral target, .invoke s.asType] ++ s.dynamicCast target

/-- Calls the helper that casts a reference to a type. -/
def referenceCast (s : Support) (r : Registry) (target : ValueType) : List Instr :=
  if target = .classObject then [.invoke s.castToClass]
  else if target = .string then [.invoke s.castToString]
  else if r.isEnum target then
    [.classLiteral target, .invoke s.castToEnum, .checkCast target]
  else [.classLiteral target, .invoke s.castToType]

end Support

namespace Op

/-- Casts the value on top without looking at the model. -/
def dynamicCast (target : ValueType) : Op Unit := do
  emitAll ((← support).dynamicCast target)

/-! ## Conversions of the language -/

/-- Coerces the top value through the support library, unless its type is a
subtype of the target. -/
def coerceBySupport (source target : ValueType) : Op Unit := do
  let c ← read
  if c.registry.isSubtype source target then return
  note (.coercing source target)
  discard box
  emitAll (c.settings.support.coercion target)
  replace target

/-- Boxes the top value if it is primitive, and calls the helper that casts it
to a reference type, unless the box is a subtype of it. -/
def castReference (target : ValueType) : Op Unit := do
  let c ← read
  let boxed ← box
  if c.registry.isSubtype boxed target then return
  emitAll (c.settings.support.referenceCast c.registry target)

/-- Reduces the reference on top to a truth value, without a change of the
model. -/
def referenceTruth : Op Unit := do
  emit (.invoke ((← support).unbox .boolean))

/-! ## The two conversions -/

/-- Ends an implicit conversion: what was boxed or cast, or was a reference all
along, becomes the target.  A box of exactly the target, other than that of a
truth value, gives up its value; anything else is cast unless it is a subtype
already. -/
def settle (source target : ValueType) : Op Unit := do
  let c ← read
  match target with
  | .primitive kind =>
    if kind ≠ .boolean ∧ source = .boxed kind then
      emit (.unbox kind)
      return
  | _ => pure ()
  let current ← top
  if c.registry.isSubtype current target then return
  dynamicCast target

/-- Converts the top value from a type that the target is not compatible with,
without the final change of the model. -/
def implicitly (source target : ValueType) : Op Unit := do
  match source, target with
  | .primitive a, .primitive b =>
    match a.conversion? b with
    | some ops =>
      note (.numeric a b ops)
      if a.mayLosePrecision b then note (.lossy a b)
      emitAll (ops.map .convert)
    | none =>
      note (.boxing a b)
      discard box
      settle source target
  | _, .primitive _ => settle source target
  | _, _ =>
    castReference target
    settle source target

/-- Converts the top value to what a type stands for. -/
def convert (target : ValueType) (explicit : Bool) : Op Unit := do
  let c ← read
  if (← entries).isEmpty then fail (.castOnEmptyStack target explicit)
  let target := c.registry.canonical target
  let source ← top
  if source = target ∨ c.registry.isCompatible source target then replace target
  else
    if explicit then coerceBySupport source target else implicitly source target
    replace target

def cast (target : ValueType) : Op Unit := convert target false

/-- The conversion that a program asks for. -/
def coerce (target : ValueType) : Op Unit := convert target true

end Op

end Lockstep
