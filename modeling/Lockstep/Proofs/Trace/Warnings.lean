import Lockstep.Proofs.Machine.Precision
import Lockstep.Proofs.Trace.Emission

/-!
# The warnings of a run

Two kinds of steps can warn, casts and stores, and both only about an integer that is cast to
`float` (`Step.warnings_of_perform`).  So whatever a trace does, and also if it fails, every
warning of a replay says that the conversion of some kind of integers to `float` may lose
precision (`Trace.lossy_of_mem_warnings_replay`).
-/

namespace Lockstep

variable {c : Context} {s after : State}

@[simp]
theorem Note.isWarning_removed (amount left : Nat) : (Note.removed amount left).isWarning = false :=
  rfl

@[simp]
theorem State.warnings_allotting (s : State) (count : Nat) :
    (s.allotting count).warnings = s.warnings := rfl

/-- All that a cast warns about are integers that become `float`. -/
theorem Context.lossy_of_mem_castWarnings {target : ValueType} {w : Note}
    (h : w ∈ c.castWarnings s target) : ∃ k : Integral, w = .lossy k.prim .float := by
  obtain ⟨k, hk⟩ := castWarnings_ne_nil_iff.mp (List.ne_nil_of_mem h)
  rw [hk.castWarnings_eq] at h
  exact ⟨k, List.mem_singleton.mp h⟩

/-! ## One step -/

namespace Step

variable {step : Step}

/-- The warnings of a step. -/
def warnings (c : Context) (s : State) : Step → List Note
  | .cast t => c.castWarnings s t
  | .storeVar x => c.castWarnings s x.type
  | _ => []

theorem warnings_of_convert {t : ValueType} {explicit : Bool}
    (h : (Op.convert t explicit).run c s = .ok () after) :
    after.warnings = s.warnings ++ if explicit then [] else c.castWarnings s t := by
  have hwarnings := Op.warnings_convert c s t explicit
  rwa [Op.after, h] at hwarnings

/-- Whatever else a step writes to the log is no warning. -/
theorem warnings_of_perform (h : step.perform.run c s = .ok () after) :
    after.warnings = s.warnings ++ step.warnings c s := by
  cases step with
  | cast t => exact warnings_of_convert h
  | coerce t => exact warnings_of_convert h
  | storeVar x =>
      cases hentries : s.entries with
      | nil => simp [perform, Op.storeVariable, Op.cast, Op.convert, hentries] at h
      | cons t rest =>
          rw [perform, Op.run_storeVariable c s hentries] at h
          cases h
          simp [warnings, Context.castWarnings, hentries, Context.warnings_conversionNotes]
  | push t =>
      cases h
      exact (List.append_nil _).symm
  | line n =>
      cases h
      exact (List.append_nil _).symm
  | pop =>
      rw [perform, Op.run_pop] at h
      split at h
      · cases h
      · cases h
        simp [warnings]
  | popDownTo mark =>
      rw [perform, Op.run_popDownTo] at h
      split at h
      · cases h
      · cases h
        simp [warnings]
  | remove amount =>
      rw [perform, Op.run_remove] at h
      split at h
      · cases h
      · cases h
        simp [warnings]
  | replace t n =>
      rw [perform, Op.run_replaceMany] at h
      split at h
      · cases h
      · cases h
        simp [warnings]
  | dup =>
      rw [perform, Op.run_dup] at h
      split at h
      · cases h
      · cases h
        simp [warnings]
  | swap =>
      rw [perform, Op.run_swap] at h
      split at h
      · cases h
      · cases h
      · cases h
        simp [warnings]
  | box =>
      cases hentries : s.entries with
      | nil => simp [perform, Op.run_box, hentries] at h
      | cons t rest =>
          rw [perform, Op.run_discard, Op.run_box_cons c s hentries] at h
          cases h
          simp [warnings]
  | castToBool mark ifEmpty =>
      rw [perform, Op.run_castToBool] at h
      split at h
      · cases h
        simp [warnings]
      · split at h
        · cases h
        · split at h
          · cases h
            simp [warnings]
          · cases h
  | constant value t =>
      rw [perform, Op.run_pushLiteral] at h
      split at h
      · cases h
        simp [warnings]
      · cases h
  | loadVar x cellItself =>
      rw [perform, Op.run_loadVariable] at h
      cases h
      simp [warnings]
  | pushBool value =>
      have hrun : (Op.pushBool value).run c s = .ok () ((s.appending c
          [.intConst (if value then 1 else 0)]).withEntries (.boolean :: s.entries)) := by
        simp [Op.pushBool]
      rw [perform, hrun] at h
      cases h
      simp [warnings]

theorem lossy_of_mem_warnings {w : Note} (h : w ∈ step.warnings c s) :
    ∃ k : Integral, w = .lossy k.prim .float := by
  cases step with
  | cast t => exact Context.lossy_of_mem_castWarnings h
  | storeVar x => exact Context.lossy_of_mem_castWarnings h
  | _ => cases h

end Step

/-! ## Runs -/

namespace Trace

/-- A run keeps the warnings that there are, and all that it adds are about integers that become
`float`. -/
theorem warnings_of_perform (c : Context) (number : Nat) (s : State) (steps : List Step) :
    ∃ ws, (perform c number s steps).2.warnings = s.warnings ++ ws ∧
      ∀ w ∈ ws, ∃ k : Integral, w = .lossy k.prim .float := by
  induction steps generalizing number s with
  | nil => exact ⟨[], (List.append_nil _).symm, fun _ hw => by cases hw⟩
  | cons step rest ih =>
      rcases perform_cons_cases c number s step rest with
        ⟨fault, -, hstop⟩ | ⟨after, hrun, hgoes⟩
      · rw [hstop]
        exact ⟨[], (List.append_nil _).symm, fun _ hw => by cases hw⟩
      · obtain ⟨ws, hws, hlossy⟩ := ih (number + 1) after
        refine ⟨step.warnings c s ++ ws, ?_, ?_⟩
        · rw [hgoes, hws, Step.warnings_of_perform hrun, List.append_assoc]
        · intro w hw
          rcases List.mem_append.mp hw with hw | hw
          · exact Step.lossy_of_mem_warnings hw
          · exact hlossy w hw

/-- Nothing else is warned about in a replay, whether it succeeds or fails. -/
theorem lossy_of_mem_warnings_replay (t : Trace) (settings : Settings) {w : Note}
    (h : w ∈ (t.replay settings).2.warnings) : ∃ k : Integral, w = .lossy k.prim .float := by
  obtain ⟨ws, hws, hlossy⟩ := warnings_of_perform (t.context settings) 1 .initial t.steps
  have hreplay : (t.replay settings).2.warnings =
      (perform (t.context settings) 1 .initial t.steps).2.warnings := by
    unfold replay
    split
    · next s hrun =>
      have hdone : ∀ steps instructions entries,
          (Note.replayed steps instructions entries).isWarning = false := fun _ _ _ => rfl
      simp [State.warnings, hrun, hdone]
    · rfl
  rw [hreplay, hws] at h
  exact hlossy w h

end Trace

end Lockstep
