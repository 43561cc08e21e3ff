import Lockstep.Stack.Convert
import Lockstep.Stack.Lemmas

/-!
# What the conversions do

The conversions as equations.  A conversion of the top value, of type `source`, to
a canonical type `target` succeeds always; it puts `target` in the place of
`source`, and the code and the notes that it appends depend on the two types, the
registry and the support classes only (`Context.conversionCode`,
`Context.conversionNotes`, `run_convert`).

All notes of a conversion come before its code, so the state it leaves can be
written in one way: first `State.noting`, then `State.appending`, then
`State.withEntries`.
-/

namespace Lockstep

namespace State

/-- The state after some notes of an operation's own. -/
def noting (s : State) (ns : List Note) : State := { s with notes := s.notes ++ ns }

variable (s : State)

@[simp]
theorem entries_noting (ns : List Note) : (s.noting ns).entries = s.entries := rfl

@[simp]
theorem code_noting (ns : List Note) : (s.noting ns).code = s.code := rfl

@[simp]
theorem labels_noting (ns : List Note) : (s.noting ns).labels = s.labels := rfl

@[simp]
theorem noting_nil : s.noting [] = s := by
  simp [noting]

@[simp]
theorem noting_noting (ms ns : List Note) : (s.noting ms).noting ns = s.noting (ms ++ ns) := by
  have hnotes : s.notes ++ ms ++ ns = s.notes ++ (ms ++ ns) := by
    apply Array.toList_inj.mp
    simp
  unfold noting
  rw [hnotes]

@[simp]
theorem noting_withEntries (ts : List ValueType) (ns : List Note) :
    (s.withEntries ts).noting ns = (s.noting ns).withEntries ts := rfl

theorem withEntries_eq_self {s : State} {ts : List ValueType} (h : s.entries = ts) :
    s.withEntries ts = s := by
  rw [← h]
  rfl

end State

/-! ## The code of a conversion -/

namespace ValueType

/-- The instruction that boxes a value of the type, if it is primitive. -/
def boxing (t : ValueType) : List Instr := (t.prim?.map Instr.box).toList

theorem exists_eq_primitive {t : ValueType} (h : t.prim? ≠ none) :
    ∃ kind, t = .primitive kind := by
  cases t with
  | primitive kind => exact ⟨kind, rfl⟩
  | _ => exact absurd rfl h

end ValueType

namespace Context

/-- The code of a coercion through the support library. -/
def coercionCode (c : Context) (source target : ValueType) : List Instr :=
  if c.registry.isSubtype source target then []
  else source.boxing ++ c.settings.support.coercion target

/-- The code that makes a value a reference and casts it. -/
def castCode (c : Context) (source target : ValueType) : List Instr :=
  source.boxing ++
    if c.registry.isSubtype source.box target then []
    else c.settings.support.referenceCast c.registry target

/-- The end of an implicit conversion, given the type that is on top. -/
def settling (c : Context) (source current target : ValueType) : List Instr :=
  let asIs := if c.registry.isSubtype current target then []
    else c.settings.support.dynamicCast target
  match target with
  | .primitive kind => if kind ≠ .boolean ∧ source = .boxed kind then [.unbox kind] else asIs
  | _ => asIs

/-- The code of an implicit conversion. -/
def implicitCode (c : Context) (source target : ValueType) : List Instr :=
  match source, target with
  | .primitive a, .primitive b =>
    match a.conversion? b with
    | some ops => ops.map .convert
    | none => source.boxing ++ c.settling source source.box target
  | _, .primitive _ => c.settling source source target
  | _, _ => c.castCode source target ++ c.settling source source.box target

/-- The notes about an implicit conversion. -/
def implicitNotes (source target : ValueType) : List Note :=
  match source, target with
  | .primitive a, .primitive b =>
    match a.conversion? b with
    | some ops => .numeric a b ops :: if a.mayLosePrecision b then [.lossy a b] else []
    | none => [.boxing a b]
  | _, _ => []

/-- The code of a conversion to a canonical type. -/
def conversionCode (c : Context) (source target : ValueType) (explicit : Bool) : List Instr :=
  if source = target ∨ c.registry.isCompatible source target then []
  else if explicit then c.coercionCode source target
  else c.implicitCode source target

/-- The notes about a conversion to a canonical type. -/
def conversionNotes (c : Context) (source target : ValueType) (explicit : Bool) : List Note :=
  if source = target ∨ c.registry.isCompatible source target then []
  else if explicit then
    if c.registry.isSubtype source target then [] else [.coercing source target]
  else implicitNotes source target

end Context

/-! ## The equations -/

namespace Op

variable {α : Type} (c : Context) (s : State) {source : ValueType} {rest : List ValueType}

@[simp]
theorem run_discard (op : Op α) :
    (discard op).run c s =
      match op.run c s with
      | .ok _ after => .ok () after
      | .error failure after => .error failure after := by
  unfold Functor.discard Functor.mapConst
  exact run_map c s _ op

@[simp]
theorem run_note (n : Note) : (note n).run c s = .ok () (s.noting [n]) := by
  unfold State.noting
  simp
  rfl

@[simp]
theorem run_support : support.run c s = .ok c.settings.support s := rfl

/-- Boxing succeeds on every stack that is not empty. -/
theorem run_box_cons (h : s.entries = source :: rest) :
    box.run c s = .ok source.box ((s.appending c source.boxing).withEntries (source.box :: rest)) := by
  have hsame := State.withEntries_eq_self h
  cases source with
  | primitive kind => simp [run_box, h, ValueType.boxing, ValueType.prim?]
  | _ => simp [run_box, h, ValueType.boxing, ValueType.prim?, ValueType.box, hsame]

theorem run_top_cons (h : s.entries = source :: rest) : top.run c s = .ok source s := by
  rw [run_top, h]

theorem run_replace_cons (h : s.entries = source :: rest) (t : ValueType) :
    (replace t).run c s = .ok () (s.withEntries (t :: rest)) := by
  rw [run_replace, h]

@[simp]
theorem run_dynamicCast (target : ValueType) :
    (dynamicCast target).run c s =
      .ok () (s.appending c (c.settings.support.dynamicCast target)) := by
  simp [dynamicCast]

theorem run_coerceBySupport (h : s.entries = source :: rest) (target : ValueType) :
    (coerceBySupport source target).run c s =
      if c.registry.isSubtype source target then .ok () s
      else
        .ok () (((s.noting [.coercing source target]).appending c
          (c.coercionCode source target)).withEntries (target :: rest)) := by
  by_cases hsub : c.registry.isSubtype source target
  · simp [coerceBySupport, hsub]
  · have hbox := run_box_cons c (s.noting [.coercing source target]) h
    simp [coerceBySupport, hsub, hbox, run_replace, Context.coercionCode]

theorem run_castReference (h : s.entries = source :: rest) (target : ValueType) :
    (castReference target).run c s =
      .ok () ((s.appending c (c.castCode source target)).withEntries (source.box :: rest)) := by
  by_cases hsub : c.registry.isSubtype source.box target <;>
    simp [castReference, run_box_cons c s h, hsub, Context.castCode]

theorem run_settle {current : ValueType} (h : s.entries = current :: rest)
    (source target : ValueType) :
    (settle source target).run c s =
      .ok () (s.appending c (c.settling source current target)) := by
  have hend :
      (do
        let current ← top
        if c.registry.isSubtype current target then return
        dynamicCast target : Op Unit).run c s =
        .ok () (s.appending c (if c.registry.isSubtype current target then []
          else c.settings.support.dynamicCast target)) := by
    by_cases hsub : c.registry.isSubtype current target <;>
      simp [run_top_cons c s h, hsub]
  cases target with
  | primitive kind =>
      by_cases hbox : kind ≠ .boolean ∧ source = .boxed kind
      · simp [settle, Context.settling, hbox]
      · simp [settle, Context.settling, hbox, hend]
  | _ => simp [settle, Context.settling, hend]

/-- An implicit conversion leaves its code, and some entry in the place of the
source, which is retyped afterwards. -/
theorem run_implicitly (h : s.entries = source :: rest) (target : ValueType) :
    ∃ left, (implicitly source target).run c s =
      .ok () (((s.noting (Context.implicitNotes source target)).appending c
        (c.implicitCode source target)).withEntries (left :: rest)) := by
  by_cases htarget : target.prim? = none
  · refine ⟨source.box, ?_⟩
    have hsettle := run_settle c
      ((s.appending c (c.castCode source target)).withEntries (source.box :: rest)) rfl
      source target
    cases target with
    | primitive kind => cases htarget
    | _ =>
        simp [implicitly, run_castReference c s h, hsettle, Context.implicitNotes,
          Context.implicitCode]
  · obtain ⟨b, rfl⟩ := ValueType.exists_eq_primitive htarget
    by_cases hsource : source.prim? = none
    · refine ⟨source, ?_⟩
      rw [State.withEntries_eq_self (by simpa using h)]
      cases source with
      | primitive kind => cases hsource
      | _ => simp [implicitly, run_settle c s h, Context.implicitNotes, Context.implicitCode]
    · obtain ⟨a, rfl⟩ := ValueType.exists_eq_primitive hsource
      cases hconversion : a.conversion? b with
      | some ops =>
          refine ⟨.primitive a, ?_⟩
          rw [State.withEntries_eq_self (by simpa using h)]
          by_cases hlossy : a.mayLosePrecision b <;>
            simp [implicitly, hconversion, hlossy, Context.implicitNotes, Context.implicitCode]
      | none =>
          refine ⟨.boxed a, ?_⟩
          have hbox := run_box_cons c (s.noting [.boxing a b]) h
          have hsettle := run_settle c (((s.noting [.boxing a b]).appending c
            (ValueType.boxing (.primitive a))).withEntries (.boxed a :: rest)) rfl
            (.primitive a) (.primitive b)
          simp [implicitly, hconversion, hbox, hsettle, Context.implicitNotes,
            Context.implicitCode, ValueType.box]

/-- Every conversion on a stack that is not empty succeeds. -/
theorem run_convert (h : s.entries = source :: rest) (target : ValueType) (explicit : Bool) :
    (convert target explicit).run c s =
      .ok () (((s.noting (c.conversionNotes source (c.registry.canonical target) explicit)).appending
        c (c.conversionCode source (c.registry.canonical target) explicit)).withEntries
          (c.registry.canonical target :: rest)) := by
  have hne : s.entries ≠ [] := by
    rw [h]
    exact List.cons_ne_nil _ _
  by_cases hasIs : source = c.registry.canonical target ∨
      c.registry.isCompatible source (c.registry.canonical target)
  · simp [convert, hne, run_top_cons c s h, hasIs, run_replace_cons c s h,
      Context.conversionCode, Context.conversionNotes]
  · cases explicit with
    | true =>
        have hcoerce := run_coerceBySupport c s h (c.registry.canonical target)
        by_cases hsub : c.registry.isSubtype source (c.registry.canonical target) <;>
          simp [convert, run_top_cons c s h, hasIs, hcoerce, hsub, run_replace, h,
            Context.conversionCode, Context.conversionNotes, Context.coercionCode]
    | false =>
        obtain ⟨left, himplicitly⟩ := run_implicitly c s h (c.registry.canonical target)
        simp [convert, hne, run_top_cons c s h, hasIs, himplicitly, run_replace,
          Context.conversionCode, Context.conversionNotes]

end Op

end Lockstep
