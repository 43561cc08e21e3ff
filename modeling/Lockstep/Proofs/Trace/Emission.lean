import Lockstep.Proofs.Machine.Operations
import Lockstep.Proofs.Trace.Outcomes

/-!
# What a run appends

The code that a step appends is a function of the entries, the first label that is free,
and what no step changes (`Step.code`); the number of labels that it takes is a function
of the entries alone (`Step.labels`).  Neither the code that is already there nor the log
has a part in it.

If emission is traced, the log gets a note about each instruction of that code, in its
order, and no other note is about an instruction (`State.emissions`).

A step that is refused appends nothing, takes no label and keeps the line
(`Step.run_of_refusal`).  So a run only ever appends (`Trace.isPrefix_of_perform`), it can
be cut in two anywhere (`Trace.perform_append`), and the line that it has got to is the
one that was set last (`Trace.line_of_perform`).
-/

namespace Lockstep

/-- Whether a note says that an instruction was emitted. -/
def Note.isEmission : Note → Bool
  | .emitted _ _ _ => true
  | _ => false

namespace State

/-- The notes about emitted instructions, in order. -/
def emissions (s : State) : List Note := s.notes.toList.filter Note.isEmission

variable (s : State) (c : Context)

@[simp]
theorem labels_withEntries (ts : List ValueType) : (s.withEntries ts).labels = s.labels := rfl

@[simp]
theorem emissions_withEntries (ts : List ValueType) :
    (s.withEntries ts).emissions = s.emissions := rfl

@[simp]
theorem emissions_allotting (count : Nat) : (s.allotting count).emissions = s.emissions := rfl

@[simp]
theorem emissionNotes_nil : s.emissionNotes c [] = [] := by
  unfold emissionNotes
  split <;> rfl

@[simp]
theorem emissionNotes_noting (ns : List Note) (is : List Instr) :
    (s.noting ns).emissionNotes c is = s.emissionNotes c is := rfl

@[simp]
theorem emissionNotes_allotting (count : Nat) (is : List Instr) :
    (s.allotting count).emissionNotes c is = s.emissionNotes c is := rfl

theorem emissions_noting {ns : List Note} (h : ns.all (fun n => !n.isEmission)) :
    (s.noting ns).emissions = s.emissions := by
  have hnone : ns.filter Note.isEmission = [] := by
    rw [List.filter_eq_nil_iff]
    intro n hn
    simpa using List.all_eq_true.mp h n hn
  simp [noting, emissions, hnone]

@[simp]
theorem emissions_noting_removed (amount left : Nat) :
    (s.noting [.removed amount left]).emissions = s.emissions := s.emissions_noting rfl

/-- Appending instructions is the only way to make notes about them. -/
@[simp]
theorem emissions_appending (is : List Instr) :
    (s.appending c is).emissions = s.emissions ++ s.emissionNotes c is := by
  have hall : (s.emissionNotes c is).filter Note.isEmission = s.emissionNotes c is := by
    rw [List.filter_eq_self]
    intro n hn
    unfold emissionNotes at hn
    split at hn
    · obtain ⟨i, -, rfl⟩ := List.mem_map.mp hn
      rfl
    · cases hn
  simp [appending, emissions, hall]

end State

/-- A conversion has notes of its own, none of them about an instruction. -/
theorem Context.all_conversionNotes (c : Context) (source target : ValueType) (explicit : Bool) :
    (c.conversionNotes source target explicit).all (fun n => !n.isEmission) := by
  unfold conversionNotes implicitNotes
  repeat' split
  all_goals rfl

/-! ## One step -/

namespace Step

/-- The value that a condition above a mark consists of, unless it was left out. -/
def condition? (ts : List ValueType) (mark : Nat) : Option ValueType :=
  if ts.length = mark then none else ts.head?

/-- How many labels a step takes. -/
def labels (ts : List ValueType) : Step → Nat
  | .castToBool mark _ => ((condition? ts mark.toNat).map ValueType.truthLabels).getD 0
  | _ => 0

/-- The code that a step appends, given the entries and the first label that is free. -/
def code (c : Context) (ts : List ValueType) (first : Nat) : Step → List Instr
  | .push _ | .remove _ | .replace _ _ | .line _ => []
  | .pop => (ts.take 1).map ValueType.discard
  | .popDownTo mark => (ts.take (ts.length - mark.toNat)).map ValueType.discard
  | .dup => (ts.take 1).map ValueType.duplicate
  | .swap =>
    match ts with
    | top :: below :: _ => top.exchange below
    | _ => []
  | .box => (ts.take 1).flatMap ValueType.boxing
  | .cast t =>
    (ts.take 1).flatMap fun source => c.conversionCode source (c.registry.canonical t) false
  | .coerce t =>
    (ts.take 1).flatMap fun source => c.conversionCode source (c.registry.canonical t) true
  | .castToBool mark ifEmpty =>
    match condition? ts mark.toNat with
    | none => [.bytePush (if ifEmpty then 1 else 0)]
    | some t => t.truthCode c.settings.support first
  | .constant value t =>
    match value.load t with
    | .ok (code, _) => code
    | .error _ => []
  | .loadVar x cellItself => (x.loading c.settings.support cellItself).1
  | .storeVar x =>
    (ts.take 1).flatMap fun source =>
      c.conversionCode source (c.registry.canonical x.type) false ++
        x.storing c.settings.support (c.registry.canonical x.type)
  | .pushBool value => [.intConst (if value then 1 else 0)]

/-- The line that a step sets. -/
def line? : Step → Option UInt32
  | .line n => some n
  | _ => none

/-- A step has appended its code to that of a state. -/
structure Emits (step : Step) (c : Context) (s after : State) : Prop where
  code : after.code.toList = s.code.toList ++ step.code c s.entries s.labels
  labels : after.labels = s.labels + step.labels s.entries
  line : after.line = step.line?.getD s.line
  emissions : after.emissions = s.emissions ++ s.emissionNotes c (step.code c s.entries s.labels)

variable {step : Step} {c : Context} {s after : State}

/-- A step that is refused leaves no trace. -/
theorem run_of_refusal {fault : Fault} (h : step.call.refusal s.entries = some fault) :
    step.perform.run c s = .error (s.failure c fault) s := by
  have hrun := Call.run_of_refusal c s h
  rw [perform_call] at hrun
  cases step <;> exact hrun

theorem refusal_of_perform (h : step.perform.run c s = .ok () after) :
    step.call.refusal s.entries = none := by
  cases hrefusal : step.call.refusal s.entries with
  | none => rfl
  | some fault =>
      rw [run_of_refusal hrefusal] at h
      cases h

theorem entries_of_perform (h : step.perform.run c s = .ok () after) :
    after.entries =
      step.call.leaves c.registry.canonical c.settings.support.cellType s.entries := by
  obtain ⟨after', hrun, hleft⟩ := Call.exists_run_of_refusal c s (refusal_of_perform h)
  rw [perform_call, h] at hrun
  cases hrun
  exact hleft

theorem emits_of_convert {t : ValueType} {explicit : Bool}
    (h : (Op.convert t explicit).run c s = .ok () after) :
    after.code.toList = s.code.toList ++ ((s.entries.take 1).flatMap fun source =>
        c.conversionCode source (c.registry.canonical t) explicit) ∧
      after.labels = s.labels ∧ after.line = s.line ∧
      after.emissions = s.emissions ++ s.emissionNotes c ((s.entries.take 1).flatMap fun source =>
        c.conversionCode source (c.registry.canonical t) explicit) := by
  cases hentries : s.entries with
  | nil => simp [Op.convert, hentries] at h
  | cons source rest =>
      have hnotes := s.emissions_noting
        (c.all_conversionNotes source (c.registry.canonical t) explicit)
      rw [Op.run_convert c s hentries] at h
      cases h
      exact ⟨by simp, rfl, rfl, by simp [hnotes]⟩

theorem emits_of_castToBool {mark : UInt64} {ifEmpty : Bool}
    (h : (Op.castToBool mark.toNat ifEmpty).run c s = .ok () after) :
    (castToBool mark ifEmpty).Emits c s after := by
  rw [Op.run_castToBool, State.size] at h
  split at h
  · next hmark =>
    cases h
    have hcondition : condition? s.entries mark.toNat = none := if_pos hmark
    exact ⟨by simp [code, hcondition], by simp [labels, hcondition], rfl,
      by simp [code, hcondition]⟩
  · next hmark =>
    split at h
    · cases h
    · next t rest hentries =>
      split at h
      · cases h
        have hcondition : condition? s.entries mark.toNat = some t := by
          rw [condition?, if_neg hmark, hentries, List.head?_cons]
        exact ⟨by simp [code, hcondition], by simp [labels, hcondition], rfl,
          by simp [code, hcondition]⟩
      · cases h

/-- What a step appends is its code, whatever is there already. -/
theorem emits_of_perform (h : step.perform.run c s = .ok () after) : step.Emits c s after := by
  cases step with
  | push t =>
      cases h
      exact ⟨by simp [code], rfl, rfl, by simp [code]; rfl⟩
  | line n =>
      cases h
      exact ⟨by simp [code], rfl, rfl, by simp [code]; rfl⟩
  | cast t =>
      obtain ⟨hcode, hlabels, hline, hemissions⟩ := emits_of_convert h
      exact ⟨hcode, hlabels, hline, hemissions⟩
  | coerce t =>
      obtain ⟨hcode, hlabels, hline, hemissions⟩ := emits_of_convert h
      exact ⟨hcode, hlabels, hline, hemissions⟩
  | castToBool mark ifEmpty => exact emits_of_castToBool h
  | pop =>
      rw [perform, Op.run_pop] at h
      split at h
      · cases h
      · next t rest hentries =>
        cases h
        exact ⟨by simp [code, hentries], rfl, rfl, by simp [code, hentries]⟩
  | popDownTo mark =>
      rw [perform, Op.run_popDownTo] at h
      split at h
      · cases h
      · cases h
        exact ⟨by simp [code, State.size], rfl, rfl, by simp [code, State.size]⟩
  | remove amount =>
      rw [perform, Op.run_remove] at h
      split at h
      · cases h
      · cases h
        exact ⟨by simp [code], rfl, rfl, by simp [code]⟩
  | replace t n =>
      rw [perform, Op.run_replaceMany] at h
      split at h
      · cases h
      · cases h
        exact ⟨by simp [code], rfl, rfl, by simp [code]⟩
  | dup =>
      rw [perform, Op.run_dup] at h
      split at h
      · cases h
      · next t rest hentries =>
        cases h
        exact ⟨by simp [code, hentries], rfl, rfl, by simp [code, hentries]⟩
  | swap =>
      rw [perform, Op.run_swap] at h
      split at h
      · cases h
      · cases h
      · next top below rest hentries =>
        cases h
        exact ⟨by simp [code, hentries], rfl, rfl, by simp [code, hentries]⟩
  | box =>
      cases hentries : s.entries with
      | nil => simp [perform, Op.run_box, hentries] at h
      | cons t rest =>
          rw [perform, Op.run_discard, Op.run_box_cons c s hentries] at h
          cases h
          exact ⟨by simp [code, hentries], rfl, rfl, by simp [code, hentries]⟩
  | constant value t =>
      rw [perform, Op.run_pushLiteral] at h
      split at h
      · next hload =>
        cases h
        exact ⟨by simp [code, hload], rfl, rfl, by simp [code, hload]⟩
      · cases h
  | loadVar x cellItself =>
      rw [perform, Op.run_loadVariable] at h
      cases h
      exact ⟨by simp [code], rfl, rfl, by simp [code]⟩
  | storeVar x =>
      cases hentries : s.entries with
      | nil => simp [perform, Op.storeVariable, Op.cast, Op.convert, hentries] at h
      | cons t rest =>
          have hnotes := s.emissions_noting
            (c.all_conversionNotes t (c.registry.canonical x.type) false)
          rw [perform, Op.run_storeVariable c s hentries] at h
          cases h
          exact ⟨by simp [code, hentries], rfl, rfl, by simp [code, hentries, hnotes]⟩
  | pushBool value =>
      have hrun : (Op.pushBool value).run c s = .ok () ((s.appending c
          [.intConst (if value then 1 else 0)]).withEntries (.boolean :: s.entries)) := by
        simp [Op.pushBool]
      rw [perform, hrun] at h
      cases h
      exact ⟨by simp [code], rfl, rfl, by simp [code]⟩

end Step

/-! ## Runs -/

namespace Trace

variable {c : Context} {number : Nat} {s s' : State} {steps : List Step}

theorem perform_cons {step : Step} {after : State} (h : step.perform.run c s = .ok () after)
    (number : Nat) (rest : List Step) :
    perform c number s (step :: rest) = perform c (number + 1) after rest := by
  rw [perform, h]

theorem perform_cons_of_refusal {step : Step} {fault : Fault}
    (h : step.call.refusal s.entries = some fault) (number : Nat) (rest : List Step) :
    perform c number s (step :: rest) = (.error ⟨number, s.failure c fault⟩, s) := by
  rw [perform, Step.run_of_refusal h]

/-- A step is refused, or goes on to the rest of the run. -/
theorem perform_cons_cases (c : Context) (number : Nat) (s : State) (step : Step)
    (rest : List Step) :
    (∃ fault, step.call.refusal s.entries = some fault ∧
      perform c number s (step :: rest) = (.error ⟨number, s.failure c fault⟩, s)) ∨
    ∃ after, step.perform.run c s = .ok () after ∧
      perform c number s (step :: rest) = perform c (number + 1) after rest := by
  cases hrefusal : step.call.refusal s.entries with
  | some fault => exact .inl ⟨fault, rfl, perform_cons_of_refusal hrefusal number rest⟩
  | none =>
      obtain ⟨after, hrun, -⟩ := Call.exists_run_of_refusal c s hrefusal
      rw [Step.perform_call] at hrun
      exact .inr ⟨after, hrun, perform_cons hrun number rest⟩

/-- A run through two lists of steps is one through the first, and then one through the
second if it gets there. -/
theorem perform_append (c : Context) (number : Nat) (s : State) (before rest : List Step) :
    perform c number s (before ++ rest) =
      match perform c number s before with
      | (.ok (), middle) => perform c (number + before.length) middle rest
      | (.error f, stopped) => (.error f, stopped) := by
  induction before generalizing number s with
  | nil => rfl
  | cons step before ih =>
      rw [List.cons_append]
      rcases perform_cons_cases c number s step before with
        ⟨fault, hrefusal, hstop⟩ | ⟨after, hrun, hgoes⟩
      · rw [hstop, perform_cons_of_refusal hrefusal]
      · rw [hgoes, perform_cons hrun, ih, List.length_cons, Nat.add_right_comm, Nat.add_assoc]

/-- A run only ever appends, also one that fails. -/
theorem isPrefix_of_perform (c : Context) (number : Nat) (s : State) (steps : List Step) :
    s.code.toList <+: (perform c number s steps).2.code.toList := by
  induction steps generalizing number s with
  | nil => exact List.prefix_rfl
  | cons step rest ih =>
      rcases perform_cons_cases c number s step rest with
        ⟨fault, -, hstop⟩ | ⟨after, hrun, hgoes⟩
      · rw [hstop]
      · have hcode := (Step.emits_of_perform hrun).code
        have hstep : s.code.toList <+: after.code.toList := hcode ▸ List.prefix_append _ _
        rw [hgoes]
        exact hstep.trans (ih (number + 1) after)

end Trace

end Lockstep
