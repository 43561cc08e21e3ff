import Lockstep.Flow.Heights
import Lockstep.Trace.Basic

/-!
# Replaying traces

A trace is replayed from the empty stack, step by step, up to its end or to the
first step that fails.
-/

namespace Lockstep

/-- A step that failed, counted from one, and why. -/
structure StepFailure where
  number : Nat
  failure : Failure
  deriving DecidableEq

def StepFailure.message (f : StepFailure) : String :=
  "step " ++ toString f.number ++ ": " ++ f.failure.message

namespace Trace

/-- Performs steps in order, the first of which has a given number. -/
def perform (c : Context) (number : Nat) (s : State) : List Step → Except StepFailure Unit × State
  | [] => (.ok (), s)
  | step :: rest =>
    match step.perform.run c s with
    | .ok _ s => perform c (number + 1) s rest
    | .error failure s => (.error ⟨number, failure⟩, s)

/-- The context in which a trace is replayed. -/
def context (t : Trace) (settings : Settings) : Context := ⟨t.registry, settings, t.body⟩

/-- Replays a trace: whether it got to its end, and the state it got to. -/
def replay (t : Trace) (settings : Settings) : Except StepFailure Unit × State :=
  match perform (t.context settings) 1 .initial t.steps with
  | (.ok (), s) =>
    let done := Note.replayed t.steps.length s.code.size s.bottomUp
    (.ok (), { s with notes := s.notes.push done })
  | failed => failed

end Trace

structure Report where
  code : List String
  stack : List String
  logicalDepth : Nat
  slotDepth : Nat

def State.report (s : State) : Report :=
  { code := s.code.toList.map Instr.text
    stack := s.bottomUp.map ValueType.text
    logicalDepth := s.size
    slotDepth := s.slots }

/-- The height that the code of a state leaves, entered with an empty stack. -/
def State.verify (s : State) : Except Flow.Defect Nat :=
  Flow.verify Flow.standardLimit s.code.toList 0

end Lockstep
