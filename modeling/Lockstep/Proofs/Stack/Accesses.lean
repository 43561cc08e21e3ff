import Lockstep.Proofs.Stack.Conversions
import Lockstep.Stack.Literal
import Lockstep.Stack.Local
import Lockstep.Stack.Truth

/-!
# What literals, variables and conditions do

The operations that load a literal, load and store a variable, and reduce a
condition, as equations like those of the conversions.  What each of them appends
is a function of the types and the context (`Literal.load`, `Variable.loading`,
`Variable.storing`, `ValueType.truthCode`).

Only conditions take labels: as many as the test of the type needs
(`State.allotting`).
-/

namespace Lockstep

namespace State

/-- The state after some labels have been handed out. -/
def allotting (s : State) (count : Nat) : State := { s with labels := s.labels + count }

variable (s : State) (count : Nat)

@[simp]
theorem entries_allotting : (s.allotting count).entries = s.entries := rfl

@[simp]
theorem code_allotting : (s.allotting count).code = s.code := rfl

@[simp]
theorem labels_allotting : (s.allotting count).labels = s.labels + count := rfl

@[simp]
theorem allotting_zero : s.allotting 0 = s := rfl

end State

/-! ## What is appended -/

/-- The code that loads a literal under its declared type, and the type it is then
on the stack as. -/
def Literal.load (value : Literal) (declared : ValueType) :
    Except Fault (List Instr × ValueType) :=
  match value, declared with
  | .null, _ => .ok ([.nullConst], .object)
  | .boolean v, .boxed _ => .ok ([.getStatic (sharedBox v)], declared)
  | _, .primitive kind =>
    match primLoad? kind value with
    | some i => .ok ([i], declared)
    | none => .error (.constantTypeMismatch value.text declared)
  | _, .boxed kind =>
    match primLoad? kind value with
    | some i => .ok ([i, .box kind], declared)
    | none => .error (.constantTypeMismatch value.text declared)
  | _, _ =>
    match value.referenceLoad? with
    | some code => .ok (code, declared)
    | none => .error (.unsupportedConstant value.text declared)

namespace Variable

/-- The code that loads a variable, and the type it is then on the stack as. -/
def loading (v : Variable) (s : Support) (cellItself : Bool) : List Instr × ValueType :=
  if v.holder then
    if cellItself then ([.load .reference v.index], s.cellType)
    else ([.load .reference v.index, .invoke s.cellGet] ++ s.dynamicCast v.type, v.type)
  else ([.load v.type.carrier v.index], v.type)

/-- The code that stores a value of the type a variable was cast to. -/
def storing (v : Variable) (s : Support) (stored : ValueType) : List Instr :=
  if v.holder then
    stored.boxing ++ [.load .reference v.index, .checkCast s.cellType, .swap, .invoke s.cellSet]
  else [.store v.type.carrier v.index]

end Variable

namespace ValueType

/-- How many labels the test of a value of the type needs. -/
def truthLabels (t : ValueType) : Nat := (t.prim?.map Prim.truthLabels).getD 0

/-- The code that replaces a value of the type by a truth value. -/
def truthCode (t : ValueType) (s : Support) (first : Nat) : List Instr :=
  match t with
  | .primitive kind => kind.truthCode first
  | _ => [.invoke (s.unbox .boolean)]

end ValueType

/-! ## The equations -/

namespace Op

variable (c : Context) (s : State) {top : ValueType} {rest : List ValueType}

theorem run_remove (amount : Nat) :
    (remove amount).run c s =
      if s.size < amount then .error (s.failure c (.underflow .remove amount s.size)) s
      else
        .ok () ((s.noting [.removed amount (s.size - amount)]).withEntries
          (s.entries.drop amount)) := by
  by_cases hshort : s.entries.length < amount <;> simp [remove, State.size, hshort]

theorem run_loadPrim (value : Literal) (kind : Prim) (declared : ValueType) :
    (loadPrim value kind declared).run c s =
      match Literal.primLoad? kind value with
      | some i => .ok () (s.appending c [i])
      | none => .error (s.failure c (.constantTypeMismatch value.text declared)) s := by
  cases hload : Literal.primLoad? kind value <;> simp [loadPrim, hload]

/-- A literal is loaded, or nothing is done. -/
theorem run_pushLiteral (value : Literal) (declared : ValueType) :
    (pushLiteral value declared).run c s =
      match value.load declared with
      | .ok (code, t) => .ok () ((s.appending c code).withEntries (t :: s.entries))
      | .error fault => .error (s.failure c fault) s := by
  unfold pushLiteral Literal.load
  split
  · simp
  · simp
  · next t kind hnull =>
    cases hload : Literal.primLoad? kind value <;> simp [run_loadPrim, hload]
  · next kind hnull hbool =>
    cases hload : Literal.primLoad? kind value with
    | none => simp [run_loadPrim, hload]
    | some i =>
        have hbox := run_box_cons c ((s.appending c [i]).withEntries (.primitive kind :: s.entries))
          rfl
        simp [run_loadPrim, hload, hbox, ValueType.boxing, ValueType.prim?, ValueType.box]
  · cases value.referenceLoad? <;> simp

/-- Every variable can be loaded. -/
theorem run_loadVariable (v : Variable) (cellItself : Bool) :
    (loadVariable v cellItself).run c s =
      .ok () ((s.appending c (v.loading c.settings.support cellItself).1).withEntries
        ((v.loading c.settings.support cellItself).2 :: s.entries)) := by
  unfold loadVariable Variable.loading
  by_cases hholder : v.holder = true
  · cases cellItself <;> simp [hholder]
  · simp [hholder, load]

/-- A value is converted, stored, and forgotten. -/
theorem run_storeVariable (h : s.entries = top :: rest) (v : Variable) :
    (storeVariable v).run c s =
      .ok () ((((s.noting (c.conversionNotes top (c.registry.canonical v.type) false)).appending c
        (c.conversionCode top (c.registry.canonical v.type) false ++
          v.storing c.settings.support (c.registry.canonical v.type))).noting
            [.removed 1 rest.length]).withEntries rest) := by
  have hcast := run_convert c s h v.type false
  by_cases hholder : v.holder = true
  · have hbox := run_box_cons c (((s.noting (c.conversionNotes top
      (c.registry.canonical v.type) false)).appending c
        (c.conversionCode top (c.registry.canonical v.type) false)).withEntries
          (c.registry.canonical v.type :: rest)) rfl
    simp [storeVariable, cast, hcast, hholder, hbox, run_remove, State.size, Variable.storing]
  · simp [storeVariable, cast, hcast, hholder, run_remove, State.size, Variable.storing]

@[simp]
theorem run_freshLabels (count : Nat) :
    (freshLabels count).run c s = .ok s.labels (s.allotting count) := rfl

theorem run_castToBool_cons (h : s.entries = top :: rest) (ifEmpty : Bool) :
    (castToBool rest.length ifEmpty).run c s =
      .ok () (((s.allotting top.truthLabels).appending c
        (top.truthCode c.settings.support s.labels)).withEntries (.boolean :: rest)) := by
  have htop := run_top_cons c s h
  cases top with
  | primitive kind =>
      by_cases hboolean : kind = .boolean
      · subst hboolean
        have hsame : s = s.withEntries (.boolean :: rest) := (State.withEntries_eq_self h).symm
        simpa [castToBool, h, htop, ValueType.truthLabels, ValueType.truthCode, ValueType.prim?,
          Prim.truthLabels, Prim.truthCode] using hsame
      · simp [castToBool, h, htop, primTruth, run_replace, ValueType.truthLabels,
          ValueType.truthCode, ValueType.prim?]
  | _ =>
      simp [castToBool, h, htop, referenceTruth, run_replace, ValueType.truthLabels,
        ValueType.truthCode, ValueType.prim?]

/-- A condition is what is above the mark: nothing or one value. -/
theorem run_castToBool (mark : Nat) (ifEmpty : Bool) :
    (castToBool mark ifEmpty).run c s =
      if s.size = mark then
        .ok () ((s.appending c [.bytePush (if ifEmpty then 1 else 0)]).withEntries
          (.boolean :: s.entries))
      else
        match s.entries with
        | [] => .error (s.failure c (.boolMarkMismatch mark 0)) s
        | t :: rest =>
          if rest.length = mark then
            .ok () (((s.allotting t.truthLabels).appending c
              (t.truthCode c.settings.support s.labels)).withEntries (.boolean :: rest))
          else .error (s.failure c (.boolMarkMismatch mark s.size)) s := by
  by_cases hempty : s.entries.length = mark
  · simp [castToBool, State.size, hempty]
  · cases hentries : s.entries with
    | nil =>
        have hne : ¬ 0 = mark := by
          rwa [hentries] at hempty
        simp [castToBool, State.size, hentries, hne]
    | cons t rest =>
        have hne : ¬ rest.length + 1 = mark := by
          rwa [hentries] at hempty
        by_cases hone : rest.length = mark
        · subst hone
          rw [run_castToBool_cons c s hentries]
          simp [State.size, hentries]
        · simp [castToBool, State.size, hentries, hne, hone]

end Op

end Lockstep
