import Lockstep.Proofs.Classes.Subtyping
import Lockstep.Proofs.Stack.Conversions

/-!
# The shapes of conversions

A conversion appends code of one of seven shapes, and the two types and the registry decide
which (`Context.Converts`, `converts_conversionCode`).  What a conversion appends can be
read off its shape: whether it is anything, whether the value is boxed, and what is called.

Three questions decide whether there is code: whether the type is compatible with the
target, whether it is a subtype, and whether its box is one.  The first two are one and the
same question (`Registry.isSubtype_of_isCompatible`, `Registry.isCompatible_of_isSubtype`),
and what is no subtype, and has no empty numeric chain either, is never left without code.
-/

namespace Lockstep

/-! ## The shapes -/

/-- The chain between two kinds is empty from those that the machine has as ints to `int`. -/
theorem Prim.conversion?_eq_some_nil_iff {a b : Prim} (hne : a ≠ b) :
    a.conversion? b = some [] ↔ a ∈ [.byte, .char, .short] ∧ b = .int := by
  cases a <;> cases b <;> first | exact absurd rfl hne | decide

variable {c : Context} {source target : ValueType} {explicit : Bool} {code : List Instr}

namespace Context

/-- The code of an explicit or implicit conversion from one type to another. -/
inductive Converts (c : Context) : Bool → ValueType → ValueType → List Instr → Prop
  /-- What is below the target stays as it is. -/
  | asIs {source target : ValueType} (explicit : Bool)
      (h : c.registry.isSubtype source target = true) : Converts c explicit source target []
  /-- What is asked for is coerced by the support library. -/
  | coerced {source target : ValueType} (h : c.registry.isSubtype source target = false) :
      Converts c true source target (source.boxing ++ c.settings.support.coercion target)
  /-- A number becomes another by a chain of conversions, which may be empty. -/
  | numeric {a b : Prim} {ops : List NumOp} (hne : a ≠ b) (h : a.conversion? b = some ops) :
      Converts c false (.primitive a) (.primitive b) (ops.map .convert)
  /-- A box of the target gives up its value, unless that is a truth value. -/
  | unboxed {kind : Prim} (hkind : kind ≠ .boolean) :
      Converts c false (.boxed kind) (.primitive kind) [.unbox kind]
  /-- All else becomes a primitive by a call. -/
  | dynamic {source : ValueType} {kind : Prim}
      (hnumeric : ∀ a, source = .primitive a → a.conversion? kind = none)
      (hbox : source = .boxed kind → kind = .boolean) :
      Converts c false source (.primitive kind)
        (source.boxing ++ [.invoke (c.settings.support.unbox kind)])
  /-- A primitive with a box below the target is boxed. -/
  | boxed {kind : Prim} {target : ValueType}
      (h : c.registry.isSubtype (.boxed kind) target = true) :
      Converts c false (.primitive kind) target [.box kind]
  /-- All else becomes a reference by a call and a check. -/
  | cast {source target : ValueType} (htarget : target.isPrimitive = false)
      (h : c.registry.isSubtype source.box target = false) :
      Converts c false source target (source.boxing ++
        (c.settings.support.referenceCast c.registry target ++ [.checkCast target]))

/-- What is below the target needs no code. -/
theorem conversionCode_of_isSubtype (h : c.registry.isSubtype source target = true)
    (explicit : Bool) : c.conversionCode source target explicit = [] :=
  if_pos (.inr (Registry.isCompatible_of_isSubtype h))

/-- The cast to a type that not all references are below is a check. -/
theorem dynamicCast_of_not_isSubtype {t : ValueType} (ht : t.isPrimitive = false)
    (htarget : target.isPrimitive = false) (h : c.registry.isSubtype t target = false) :
    c.settings.support.dynamicCast target = [.checkCast target] := by
  have hobject : target.isObject = false := by
    rw [Bool.eq_false_iff]
    intro hobject
    rw [show target = .object from of_decide_eq_true hobject, Registry.isSubtype_object ht] at h
    cases h
  unfold Support.dynamicCast
  rw [hobject]
  cases target with
  | primitive kind => cases htarget
  | _ => rfl

/-- No reference is below a primitive, so that the end of a conversion to one is an unboxing
or a call. -/
theorem settling_primitive {current : ValueType} (h : current.isPrimitive = false)
    (source : ValueType) (kind : Prim) :
    c.settling source current (.primitive kind) =
      if kind ≠ .boolean ∧ source = .boxed kind then [.unbox kind]
      else [.invoke (c.settings.support.unbox kind)] := by
  have hsub : c.registry.isSubtype current (.primitive kind) = false := by
    rw [Bool.eq_false_iff]
    intro hsub
    rw [Registry.eq_of_isSubtype_primitive hsub] at h
    cases h
  unfold settling
  rw [hsub]
  rfl

/-- The end of a conversion to a reference is a cast, unless what is on top is below it. -/
theorem settling_reference (htarget : target.isPrimitive = false) (source current : ValueType) :
    c.settling source current target =
      if c.registry.isSubtype current target then []
      else c.settings.support.dynamicCast target := by
  cases target with
  | primitive kind => cases htarget
  | _ => rfl

/-- Between references, and from a primitive to a reference, the box of the value decides. -/
theorem converts_implicitCode_reference (hsub : c.registry.isSubtype source target = false)
    (htarget : target.isPrimitive = false) :
    c.Converts false source target (c.implicitCode source target) := by
  have hcode : c.implicitCode source target =
      c.castCode source target ++ c.settling source source.box target := by
    cases target with
    | primitive kind => cases htarget
    | _ => cases source <;> rfl
  rw [hcode, castCode, settling_reference htarget]
  cases hbox : c.registry.isSubtype source.box target with
  | false =>
      rw [if_neg Bool.false_ne_true, if_neg Bool.false_ne_true, List.append_assoc,
        dynamicCast_of_not_isSubtype source.isPrimitive_box htarget hbox]
      exact .cast htarget hbox
  | true =>
      rw [if_pos rfl, if_pos rfl, List.append_nil, List.append_nil]
      -- only a primitive is not its own box
      cases source with
      | primitive kind => exact .boxed hbox
      | _ => cases hsub.symm.trans hbox

/-- To a primitive there is a numeric chain, or the value is a box that is opened, or it is
left to a call. -/
theorem converts_implicitCode_primitive {kind : Prim} (hne : source ≠ .primitive kind) :
    c.Converts false source (.primitive kind) (c.implicitCode source (.primitive kind)) := by
  have hreference : ∀ {t : ValueType}, t.isPrimitive = false → t.boxing = [] →
      c.Converts false t (.primitive kind) (c.settling t t (.primitive kind)) := by
    intro t ht hboxing
    rw [settling_primitive ht]
    split
    · next hopens =>
      rw [hopens.2]
      exact .unboxed hopens.1
    · next hcalls =>
      have hdynamic : c.Converts false t (.primitive kind)
          (t.boxing ++ [.invoke (c.settings.support.unbox kind)]) := by
        refine .dynamic ?_ fun hbox =>
          Decidable.byContradiction fun hkind => hcalls ⟨hkind, hbox⟩
        rintro a rfl
        cases ht
      rwa [hboxing] at hdynamic
  cases source with
  | primitive a =>
      cases hconversion : a.conversion? kind with
      | some ops =>
          simp only [implicitCode, hconversion]
          exact .numeric (fun heq => hne (congrArg _ heq)) hconversion
      | none =>
          have hsettling : c.settling (.primitive a) (ValueType.primitive a).box (.primitive kind) =
              [.invoke (c.settings.support.unbox kind)] := by
            rw [settling_primitive rfl, if_neg]
            rintro ⟨-, hbox⟩
            cases hbox
          simp only [implicitCode, hconversion, hsettling]
          refine .dynamic ?_ ?_
          · rintro b hb
            cases hb
            exact hconversion
          · intro hbox
            cases hbox
  | _ => exact hreference rfl rfl

/-- Every conversion has one of the shapes. -/
theorem converts_conversionCode (c : Context) (source target : ValueType) (explicit : Bool) :
    c.Converts explicit source target (c.conversionCode source target explicit) := by
  cases hsub : c.registry.isSubtype source target with
  | true =>
      rw [conversionCode_of_isSubtype hsub]
      exact .asIs explicit hsub
  | false =>
      have hne : source ≠ target := by
        rintro rfl
        rw [Registry.isSubtype_self] at hsub
        cases hsub
      have hcompatible : ¬ c.registry.isCompatible source target = true := fun h => by
        rw [Registry.isSubtype_of_isCompatible h] at hsub
        cases hsub
      have hcode : c.conversionCode source target explicit =
          if explicit then c.coercionCode source target else c.implicitCode source target :=
        if_neg (not_or.mpr ⟨hne, hcompatible⟩)
      rw [hcode]
      cases explicit with
      | true =>
          rw [if_pos rfl, coercionCode, hsub]
          exact .coerced hsub
      | false =>
          rw [if_neg Bool.false_ne_true]
          cases htarget : target.isPrimitive with
          | false => exact converts_implicitCode_reference hsub htarget
          | true =>
              obtain ⟨kind, rfl⟩ := ValueType.exists_eq_primitive
                (Option.isSome_iff_ne_none.mp htarget)
              exact converts_implicitCode_primitive hne

/-- An explicit conversion appends nothing exactly if the value is below the target. -/
theorem conversionCode_explicit_eq_nil_iff :
    c.conversionCode source target true = [] ↔ c.registry.isSubtype source target = true := by
  refine ⟨fun hnil => ?_, fun h => conversionCode_of_isSubtype h true⟩
  have hconverts := converts_conversionCode c source target true
  generalize hcode : c.conversionCode source target true = code at hconverts
  cases hconverts with
  | asIs _ h => exact h
  | coerced h =>
      rw [hcode] at hnil
      simp [Support.coercion] at hnil

/-- An implicit conversion appends nothing exactly if the value is below the target, or is
one of the small numbers and becomes an int, which the machine has it as. -/
theorem conversionCode_implicit_eq_nil_iff :
    c.conversionCode source target false = [] ↔
      c.registry.isSubtype source target = true ∨
        (source ∈ [.primitive .byte, .primitive .char, .primitive .short] ∧
          target = .primitive .int) := by
  constructor
  · intro hnil
    have hconverts := converts_conversionCode c source target false
    rw [hnil] at hconverts
    generalize hcode : ([] : List Instr) = code at hconverts
    cases hconverts with
    | asIs _ h => exact .inl h
    | numeric hne h =>
        rw [List.map_eq_nil_iff.mp hcode.symm, Prim.conversion?_eq_some_nil_iff hne] at h
        obtain ⟨hsource, rfl⟩ := h
        exact .inr ⟨List.mem_map_of_mem hsource, rfl⟩
    | unboxed => cases hcode
    | dynamic => simp at hcode
    | boxed => cases hcode
    | cast => simp at hcode
  · rintro (h | ⟨hsource, rfl⟩)
    · exact conversionCode_of_isSubtype h false
    · simp only [List.mem_cons, List.not_mem_nil, or_false] at hsource
      rcases hsource with rfl | rfl | rfl <;>
        simp [conversionCode, implicitCode, Prim.conversion?, Prim.toInt, Prim.fromInt]

end Context

/-! ## Casts to references -/

/-- The method that an instruction calls. -/
def Instr.called? : Instr → Option Method
  | .invoke m => some m
  | _ => none

namespace Support

/-- The helpers that cast a reference. -/
def castHelpers (s : Support) : List Method :=
  [s.castToClass, s.castToString, s.castToEnum, s.castToType]

/-- Casting a reference takes one call, of a helper. -/
theorem exists_called_referenceCast (s : Support) (r : Registry) (target : ValueType) :
    ∃ helper ∈ s.castHelpers, (s.referenceCast r target).filterMap Instr.called? = [helper] := by
  unfold referenceCast
  split
  · exact ⟨s.castToClass, by simp [castHelpers], rfl⟩
  · split
    · exact ⟨s.castToString, by simp [castHelpers], rfl⟩
    · split
      · exact ⟨s.castToEnum, by simp [castHelpers], rfl⟩
      · exact ⟨s.castToType, by simp [castHelpers], rfl⟩

theorem box_not_mem_referenceCast (s : Support) (r : Registry) (target : ValueType) (kind : Prim) :
    Instr.box kind ∉ s.referenceCast r target := by
  unfold referenceCast
  repeat' split
  all_goals simp

end Support

/-- The code of a cast to a reference type, from a type that is not below it. -/
structure Context.CastsToReference (c : Context) (source target : ValueType) (code : List Instr) :
    Prop where
  /-- There is exactly one box, and it stands first, if and only if the value is primitive. -/
  boxes_iff : (∃ kind tail, code = .box kind :: tail ∧ ∀ other, .box other ∉ tail) ↔
    source.isPrimitive = true
  /-- A box is for the kind of the value. -/
  eq_of_box_mem : ∀ kind, .box kind ∈ code → source = .primitive kind
  /-- The box is all there is if and only if it is below the target. -/
  box_alone_iff : (∃ kind, code = [.box kind]) ↔ c.registry.isSubtype source.box target = true
  /-- Otherwise a check stands last. -/
  getLast?_eq : c.registry.isSubtype source.box target = false →
    code.getLast? = some (.checkCast target)
  /-- Otherwise one helper is called, and nothing else. -/
  exists_called : c.registry.isSubtype source.box target = false →
    ∃ helper ∈ c.settings.support.castHelpers, code.filterMap Instr.called? = [helper]

namespace Context

theorem castsToReference_box {kind : Prim}
    (h : c.registry.isSubtype (.boxed kind) target = true) :
    c.CastsToReference (.primitive kind) target [.box kind] := by
  have hclash : ¬ c.registry.isSubtype (ValueType.primitive kind).box target = false := by
    rw [show (ValueType.primitive kind).box = .boxed kind from rfl, h]
    decide
  constructor
  · exact ⟨fun _ => rfl, fun _ => ⟨kind, [], rfl, fun _ => List.not_mem_nil⟩⟩
  · intro other hmem
    cases List.mem_singleton.mp hmem
    rfl
  · exact ⟨fun _ => h, fun _ => ⟨kind, rfl⟩⟩
  · exact fun hnot => absurd hnot hclash
  · exact fun hnot => absurd hnot hclash

theorem castsToReference_call (h : c.registry.isSubtype source.box target = false) :
    c.CastsToReference source target (source.boxing ++
      (c.settings.support.referenceCast c.registry target ++ [.checkCast target])) := by
  have hbox : ∀ kind, Instr.box kind ∉
      c.settings.support.referenceCast c.registry target ++ [.checkCast target] := by
    intro kind hmem
    rcases List.mem_append.mp hmem with hmem | hmem
    · exact Support.box_not_mem_referenceCast _ _ _ kind hmem
    · cases List.mem_singleton.mp hmem
  have hof : ∀ kind, Instr.box kind ∈ source.boxing ++
      (c.settings.support.referenceCast c.registry target ++ [.checkCast target]) →
        source = .primitive kind := by
    intro kind hmem
    rcases List.mem_append.mp hmem with hmem | hmem
    · cases source with
      | primitive other =>
          cases List.mem_singleton.mp hmem
          rfl
      | _ => cases hmem
    · exact absurd hmem (hbox kind)
  constructor
  · constructor
    · rintro ⟨kind, tail, hcode, -⟩
      rw [hof kind (hcode ▸ List.mem_cons_self)]
      rfl
    · intro hprimitive
      obtain ⟨kind, rfl⟩ := ValueType.exists_eq_primitive (Option.isSome_iff_ne_none.mp hprimitive)
      exact ⟨kind, _, rfl, hbox⟩
  · exact hof
  · constructor
    · rintro ⟨kind, hcode⟩
      have hcheck : Instr.checkCast target ∈ [Instr.box kind] := by
        rw [← hcode]
        simp
      cases List.mem_singleton.mp hcheck
    · intro hsub
      cases h.symm.trans hsub
  · intro _
    rw [← List.append_assoc, List.getLast?_concat]
  · intro _
    obtain ⟨helper, hmem, hcalled⟩ :=
      c.settings.support.exists_called_referenceCast c.registry target
    refine ⟨helper, hmem, ?_⟩
    have hboxing : source.boxing.filterMap Instr.called? = [] := by
      cases source <;> rfl
    rw [List.filterMap_append, List.filterMap_append, hboxing, hcalled]
    rfl

theorem castsToReference_conversionCode (htarget : target.isPrimitive = false)
    (hne : c.conversionCode source target false ≠ []) :
    c.CastsToReference source target (c.conversionCode source target false) := by
  have hconverts := converts_conversionCode c source target false
  generalize c.conversionCode source target false = code at hconverts hne
  cases hconverts with
  | asIs => exact absurd rfl hne
  | numeric => cases htarget
  | unboxed => cases htarget
  | dynamic => cases htarget
  | boxed h => exact castsToReference_box h
  | cast _ h => exact castsToReference_call h

end Context

/-! ## The conversions -/

/-- What a cast and a coercion append.  A cast appends nothing exactly if the value is below
what the target stands for, or is a small number that becomes an int; a coercion exactly if it
is below; and a cast to a reference that appends anything has the shape of such a cast. -/
theorem shape_of_conversion {c : Context} {s : State} {rest : List ValueType}
    (hentries : s.entries = source :: rest) (target : ValueType) :
    ∃ castAfter castCode coerceAfter coerceCode,
      (Op.cast target).run c s = .ok () castAfter ∧
      castAfter.code.toList = s.code.toList ++ castCode ∧
      (Op.coerce target).run c s = .ok () coerceAfter ∧
      coerceAfter.code.toList = s.code.toList ++ coerceCode ∧
      (castCode = [] ↔ c.registry.isSubtype source (c.registry.canonical target) = true ∨
        (source ∈ [.primitive .byte, .primitive .char, .primitive .short] ∧
          c.registry.canonical target = .primitive .int)) ∧
      (coerceCode = [] ↔ c.registry.isSubtype source (c.registry.canonical target) = true) ∧
      ((c.registry.canonical target).isPrimitive = false → castCode ≠ [] →
        c.CastsToReference source (c.registry.canonical target) castCode) := by
  refine ⟨_, _, _, _, Op.run_convert c s hentries target false, ?_,
    Op.run_convert c s hentries target true, ?_, Context.conversionCode_implicit_eq_nil_iff,
    Context.conversionCode_explicit_eq_nil_iff, Context.castsToReference_conversionCode⟩
  · simp
  · simp

/-- An `int` is boxed on its way to an array, and its box is no array; so a helper is called
and the result is checked. -/
theorem shape_of_conversion_array :
    ∃ (c : Context) (after : State) (code : List Instr),
      (Op.cast (.array .string)).run c
        (State.initial.withEntries [.primitive .int, .primitive .long]) = .ok () after ∧
      after.code.toList = code ∧ c.CastsToReference (.primitive .int) (.array .string) code ∧
      (∃ kind tail, code = .box kind :: tail ∧ ∀ other, .box other ∉ tail) ∧
      code.getLast? = some (.checkCast (.array .string)) := by
  let c : Context := ⟨.empty, .standard, ⟨"a", "b", "c"⟩⟩
  have hentries : (State.initial.withEntries [.primitive .int, .primitive .long]).entries =
      [.primitive .int, .primitive .long] := rfl
  obtain ⟨after, code, -, -, hrun, hcode, -, -, hnil, -, hshape⟩ :=
    shape_of_conversion (c := c) hentries (.array .string)
  have hcanonical : c.registry.canonical (.array .string) = .array .string := rfl
  rw [hcanonical] at hnil hshape
  have hne : code ≠ [] := by
    rw [Ne, hnil]
    rintro (hsub | ⟨-, hint⟩)
    · cases Registry.isPrimitive_eq_of_isSubtype hsub
    · cases hint
  have hcasts := hshape rfl hne
  have hbox : c.registry.isSubtype (.boxed .int) (.array .string) = false := by
    rw [Bool.eq_false_iff]
    intro hsub
    cases Registry.below_of_isSubtype hsub with
    | steps _ hplain => cases hplain.2
  exact ⟨c, after, code, hrun, hcode, hcasts, hcasts.boxes_iff.mpr rfl, hcasts.getLast?_eq hbox⟩

end Lockstep
