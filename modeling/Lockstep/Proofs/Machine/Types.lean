import Lockstep.Proofs.Classes.Subtyping
import Lockstep.Proofs.Machine.Operations
import Lockstep.Proofs.Machine.Runs
import Lockstep.Proofs.Stack.Calls

/-!
# Types through a conversion

The code of a conversion leaves a check out where the registry answers that none is
needed, and it asks about the type that the model has for the value.  The value itself
may be of any type below that one.

`Instr.retype` follows the type of the value through the code: what a check, a box or a
call takes it for, if the instruction can take it at all.  The code of every conversion
goes through, from every type below the one in the model, and ends with a value that can
serve as the target (`Lands`, `lands_conversionCode`).  Where an instruction is emitted
the result is of the type that it leaves; where none is, the value keeps its type, and
that it is below the target is the transitivity of subtyping.  So the registry may have
nothing but the root above the interfaces of arrays (`Registry.BareArrayParents`).
-/

namespace Lockstep

open Lockstep.Flow

/-! ## Following the types -/

/-- What a stack of types is without the arguments of a call, given the parameters from
the last to the first. -/
def Registry.passing (r : Registry) : List ValueType → List ValueType → Option (List ValueType)
  | [], stack => some stack
  | _ :: _, [] => none
  | param :: params, t :: stack => if r.isSubtype t param then r.passing params stack else none

/-- What an instruction of a conversion makes of a stack of types, the top first.  A box
takes its own kind only, and gives it up only if it is one; a numeric conversion looks at
the carrier; every reference can be checked; a call takes arguments below its parameters. -/
def Instr.retype (r : Registry) : Instr → List ValueType → Option (List ValueType)
  | .box kind, t :: rest => if t = .primitive kind then some (.boxed kind :: rest) else none
  | .unbox kind, t :: rest =>
    if r.isSubtype t (.boxed kind) then some (.primitive kind :: rest) else none
  | .convert op, t :: rest =>
    if t.isPrimitive ∧ t.carrier = .ofPrim op.source then some (.primitive op.target :: rest)
    else none
  | .checkCast t, u :: rest => if u.isPrimitive then none else some (t :: rest)
  | .classLiteral _, stack => some (.classObject :: stack)
  | .invoke m, stack =>
    if m.dispatch = .static then
      (r.passing m.params.reverse stack).map fun rest => m.result.toList ++ rest
    else none
  | _, _ => none

/-- A value of the one type can serve as one of the other: a reference below it, or a
primitive that the machine carries as it does the other. -/
structure Registry.Serves (r : Registry) (t target : ValueType) : Prop where
  reference : target.isPrimitive = false → t.isPrimitive = false ∧ r.isSubtype t target = true
  primitive : target.isPrimitive = true → t.isPrimitive = true ∧ t.carrier = target.carrier

/-- Code makes a value of one type one of another, whatever is below it. -/
def Retypes (r : Registry) (code : List Instr) (t u : ValueType) : Prop :=
  ∀ below, runs (Instr.retype r) code (t :: below) = some (u :: below)

/-- Code makes a value of a type one that can serve as another. -/
def Lands (r : Registry) (code : List Instr) (t target : ValueType) : Prop :=
  ∃ u, Retypes r code t u ∧ r.Serves u target

variable {r : Registry} {a b : List Instr} {t u w target : ValueType}

theorem Retypes.nil (r : Registry) (t : ValueType) : Retypes r [] t t := fun _ => rfl

theorem Retypes.append (ha : Retypes r a t u) (hb : Retypes r b u w) :
    Retypes r (a ++ b) t w := by
  intro below
  rw [runs_append, ha below, Option.bind_some, hb below]

theorem Retypes.lands (ha : Retypes r a t u) (hb : Lands r b u target) :
    Lands r (a ++ b) t target := by
  obtain ⟨w, hretypes, hserves⟩ := hb
  exact ⟨w, ha.append hretypes, hserves⟩

/-- What is below a type can serve as it. -/
theorem Registry.serves_of_isSubtype (h : r.isSubtype t target = true) : r.Serves t target := by
  have hprimitive := isPrimitive_eq_of_isSubtype h
  constructor
  · intro htarget
    exact ⟨hprimitive.trans htarget, h⟩
  · intro htarget
    exact ⟨hprimitive.trans htarget, carrier_eq_of_isSubtype h⟩

/-- No code is needed below the target. -/
theorem lands_nil (h : r.isSubtype t target = true) : Lands r [] t target :=
  ⟨t, .nil r t, Registry.serves_of_isSubtype h⟩

theorem Retypes.lands_self (h : Retypes r a t target) : Lands r a t target :=
  ⟨target, h, Registry.serves_of_isSubtype (Registry.isSubtype_self target)⟩

/-! ## The instructions -/

theorem retypes_classLiteral_invoke {m : Method} {v result : ValueType}
    (hdispatch : m.dispatch = .static) (hparams : m.params = [.object, .classObject])
    (hresult : m.result = some result) (ht : t.isPrimitive = false) :
    Retypes r [.classLiteral v, .invoke m] t result := by
  intro below
  have hobject : r.isSubtype t .object = true := Registry.isSubtype_object ht
  have hclass : r.isSubtype .classObject .classObject = true := Registry.isSubtype_self _
  simp [runs, Instr.retype, Registry.passing, hdispatch, hparams, hresult, hobject, hclass]

theorem retypes_invoke {m : Method} {result : ValueType} (hdispatch : m.dispatch = .static)
    (hparams : m.params = [.object]) (hresult : m.result = some result)
    (ht : t.isPrimitive = false) : Retypes r [.invoke m] t result := by
  intro below
  have hobject : r.isSubtype t .object = true := Registry.isSubtype_object ht
  simp [runs, Instr.retype, Registry.passing, hdispatch, hparams, hresult, hobject]

theorem retypes_checkCast (ht : t.isPrimitive = false) : Retypes r [.checkCast u] t u := by
  intro below
  simp [runs, Instr.retype, ht]

/-- A value below a box gives up the value in it. -/
theorem retypes_unbox {kind : Prim} (ht : r.isSubtype t (.boxed kind) = true) :
    Retypes r [.unbox kind] t (.primitive kind) := by
  intro below
  simp [runs, Instr.retype, ht]

/-- Boxing is for the type in the model.  If that is primitive, the value is of just that
type. -/
theorem retypes_boxing (h : r.isSubtype t u = true) : Retypes r u.boxing t t.box := by
  cases u with
  | primitive kind =>
      obtain rfl := Registry.eq_of_isSubtype_primitive h
      intro below
      simp [runs, ValueType.boxing, ValueType.prim?, Instr.retype, ValueType.box]
  | _ =>
      have ht := Registry.isPrimitive_eq_of_isSubtype h
      have hbox : t.box = t := by
        cases t with
        | primitive kind => cases ht
        | _ => rfl
      rw [hbox]
      exact .nil r t

/-- A chain of numeric conversions starts from any primitive that is carried as its
source. -/
theorem retypes_numeric {ops : List NumOp} {k k' : Carrier} (hlead : NumOp.leadFrom k ops = some k')
    (ht : t.isPrimitive = true) (hcarrier : t.carrier = k) :
    ∃ u, Retypes r (ops.map .convert) t u ∧ u.isPrimitive = true ∧ u.carrier = k' := by
  induction ops generalizing t k with
  | nil =>
      obtain rfl : k = k' := Option.some.inj hlead
      exact ⟨t, .nil r t, ht, hcarrier⟩
  | cons op rest ih =>
      rw [NumOp.leadFrom] at hlead
      split at hlead
      · next hsource =>
        have hstep : Retypes r [.convert op] t (.primitive op.target) := by
          intro below
          simp [runs, Instr.retype, ht, hcarrier, hsource]
        obtain ⟨u, hrest, hu⟩ := ih (t := .primitive op.target) hlead rfl rfl
        exact ⟨u, hstep.append hrest, hu⟩
      · cases hlead

/-! ## The parts of a conversion -/

section Parts

variable (s : Support) {c : Context} {source current p : ValueType} {explicit : Bool}

theorem lands_dynamicCast (hp : p.isPrimitive = false) : Lands r (s.dynamicCast target) p target := by
  unfold Support.dynamicCast
  split
  · next hobject =>
    have heq : target = .object := of_decide_eq_true hobject
    rw [heq]
    exact lands_nil (Registry.isSubtype_object hp)
  · cases target with
    | primitive kind => exact (retypes_invoke rfl rfl rfl hp).lands_self
    | _ => exact (retypes_checkCast hp).lands_self

theorem lands_coercion (hp : p.isPrimitive = false) : Lands r (s.coercion target) p target := by
  have hcall : Retypes r [.classLiteral target, .invoke s.asType] p .object :=
    retypes_classLiteral_invoke rfl rfl rfl hp
  exact hcall.lands (lands_dynamicCast s rfl)

/-- The helper that casts a reference leaves a reference. -/
theorem retypes_referenceCast (target : ValueType) (hp : p.isPrimitive = false) :
    ∃ u, Retypes r (s.referenceCast r target) p u ∧ u.isPrimitive = false := by
  unfold Support.referenceCast
  split
  · exact ⟨.classObject, retypes_invoke rfl rfl rfl hp, rfl⟩
  · split
    · exact ⟨.string, retypes_invoke rfl rfl rfl hp, rfl⟩
    · split
      · next henum =>
        have hcall : Retypes r [.classLiteral target, .invoke s.castToEnum] p .object :=
          retypes_classLiteral_invoke rfl rfl rfl hp
        have hcheck : Retypes r [.checkCast target] .object target := retypes_checkCast rfl
        refine ⟨target, hcall.append hcheck, ?_⟩
        -- only a class can be declared as an enumeration
        cases target with
        | primitive kind => cases henum
        | _ => rfl
      · exact ⟨.object, retypes_classLiteral_invoke rfl rfl rfl hp, rfl⟩

/-- From every type below the source, a conversion ends with what can serve as the
target. -/
theorem lands_conversionCode (hbare : c.registry.BareArrayParents)
    (hp : c.registry.isSubtype p source = true) :
    Lands c.registry (c.conversionCode source target explicit) p target := by
  have hboxing : Retypes c.registry source.boxing p p.box := retypes_boxing hp
  have hpbox := p.isPrimitive_box
  have hconverts := Context.converts_conversionCode c source target explicit
  generalize c.conversionCode source target explicit = code at hconverts
  cases hconverts with
  | asIs _ h => exact lands_nil (Registry.isSubtype_trans hbare hp h)
  | coerced => exact hboxing.lands (lands_coercion _ hpbox)
  | @numeric k kind _ _ h =>
      obtain rfl := Registry.eq_of_isSubtype_primitive hp
      obtain ⟨hlead, -⟩ := leadFrom_conversion? h
      obtain ⟨u, hretypes, hprimitive, hcarrier⟩ :=
        retypes_numeric (r := c.registry) (t := .primitive k) hlead rfl rfl
      refine ⟨u, hretypes, ?_, ?_⟩
      · intro hreference
        cases hreference
      · intro _
        exact ⟨hprimitive, hcarrier⟩
  | unboxed => exact (retypes_unbox hp).lands_self
  | dynamic => exact hboxing.lands (retypes_invoke rfl rfl rfl hpbox).lands_self
  | @boxed kind _ h =>
      have hnothing := lands_nil (Registry.isSubtype_trans hbare (Registry.isSubtype_box hp) h)
      exact hboxing.lands hnothing
  | cast =>
      obtain ⟨u, hcast, hu⟩ :=
        retypes_referenceCast (r := c.registry) c.settings.support target hpbox
      exact hboxing.lands (hcast.lands (retypes_checkCast hu).lands_self)

end Parts

/-! ## The conversions -/

/-- The type that a call converts the value on top to, if that is what it does. -/
def Call.converts? : Call → Option ValueType
  | .cast t | .coerce t => some t
  | .castToVariable v => some v.type
  | _ => none

theorem Call.run_of_converts? {call : Call} (c : Context) (s : State) {source : ValueType}
    {rest : List ValueType} (h : call.converts? = some target)
    (hentries : s.entries = source :: rest) :
    ∃ after explicit, call.perform.run c s = .ok () after ∧
      after.code.toList =
        s.code.toList ++ c.conversionCode source (c.registry.canonical target) explicit ∧
      after.entries = c.registry.canonical target :: rest := by
  have hrun := Op.run_convert c s hentries target
  cases call with
  | cast t =>
      cases h
      exact ⟨_, false, hrun false, by simp, rfl⟩
  | coerce t =>
      cases h
      exact ⟨_, true, hrun true, by simp, rfl⟩
  | castToVariable x =>
      cases h
      exact ⟨_, false, hrun false, by simp, rfl⟩
  | _ => cases h

/-- No conversion wrongly leaves a check out.  Whatever type below that of the model the
value on top is of, the code that a conversion appends goes through from it, and leaves a
value that can serve as what the target stands for. -/
theorem types_of_conversion {call : Call} {c : Context} {s : State} {p m : ValueType}
    {rest : List ValueType} (hbare : c.registry.BareArrayParents)
    (hcall : call.converts? = some target) (hentries : s.entries = m :: rest)
    (hp : c.registry.isSubtype p m = true) :
    ∃ after code, call.perform.run c s = .ok () after ∧
      after.code.toList = s.code.toList ++ code ∧
      after.entries = c.registry.canonical target :: rest ∧
      ∃ q, (∀ below, runs (Instr.retype c.registry) code (p :: below) = some (q :: below)) ∧
        c.registry.Serves q (c.registry.canonical target) := by
  obtain ⟨after, explicit, hrun, hcode, hleft⟩ := call.run_of_converts? c s hcall hentries
  exact ⟨after, _, hrun, hcode, hleft, lands_conversionCode hbare hp⟩

/-- A class `A` with a class `B` below it, and a class `C` below that. -/
def familyContext : Context :=
  { bareContext with
    registry := ((Registry.empty.declareClass "A" none []).declareClass "B" (some "A")
      []).declareClass "C" (some "B") [] }

/-- A value of `C` that the model has as a `B` is an `A` as it is: the cast emits
nothing, and the value serves. -/
theorem types_of_conversion_family :
    ∃ after, (Call.cast (.named "A")).perform.run familyContext
        (State.initial.withEntries [.named "B"]) = .ok () after ∧
      after.code.toList = [] ∧ after.entries = [.named "A"] ∧
      familyContext.registry.isSubtype (.named "C") (.named "A") = true := by
  have hbare : familyContext.registry.BareArrayParents :=
    ⟨fun _ h => List.mem_singleton.mp h, fun _ h => List.mem_singleton.mp h⟩
  have hbelow : ∀ {sub sup : String},
      familyContext.registry.supertypes (.named sub) = [.named sup] →
      familyContext.registry.isSubtype (.named sub) (.named sup) = true := by
    intro sub sup h
    have hstep : familyContext.registry.Extends (.named sub) (.named sup) := by
      unfold Registry.Extends
      rw [h]
      exact List.mem_singleton_self _
    exact Registry.isSubtype_of_below (.steps ⟨rfl, rfl⟩ ⟨rfl, rfl⟩ (.single hstep))
  have hCB : familyContext.registry.isSubtype (.named "C") (.named "B") = true := hbelow rfl
  have hBA : familyContext.registry.isSubtype (.named "B") (.named "A") = true := hbelow rfl
  have hcall : (Call.cast (.named "A")).converts? = some (.named "A") := rfl
  have hentries : (State.initial.withEntries [.named "B"]).entries = [.named "B"] := rfl
  obtain ⟨after, code, hrun, hcode, hleft, q, hq, hserves⟩ :=
    types_of_conversion hbare hcall hentries hCB
  -- the model is below the target, so there is no code and the value keeps its type
  have hnone : after.code.toList = [] := by
    have hconvert := Op.run_convert familyContext (State.initial.withEntries [.named "B"])
      hentries (.named "A") false
    have hcompatible : familyContext.registry.isCompatible (.named "B") (.named "A") = true := by
      simp [Registry.isCompatible, hBA, ValueType.isPrimitive, ValueType.prim?]
    have hafter := hrun.symm.trans hconvert
    cases hafter
    have hcanonical : familyContext.registry.canonical (.named "A") = .named "A" := rfl
    have helided : familyContext.conversionCode (.named "B") (.named "A") false = [] :=
      if_pos (.inr hcompatible)
    rw [hcanonical, helided]
    rfl
  obtain rfl : code = [] := by
    rw [hnone] at hcode
    exact hcode.symm
  obtain rfl : .named "C" = q := List.head_eq_of_cons_eq (Option.some.inj (hq []))
  exact ⟨after, hrun, hnone, hleft, (hserves.reference rfl).2⟩

end Lockstep
