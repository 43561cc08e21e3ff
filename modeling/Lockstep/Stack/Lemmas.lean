import Lockstep.Stack.Shuffle

/-!
# What the operations do

For each basic operation the state that it leaves.  An operation that succeeds
does two things that can be told apart: it appends instructions to the code and
to the log (`State.appending`), and it puts other entries in the place of those
on top.  One that fails does so before it has done anything, with a fault that
is raised at the current site (`State.failure`).

With these equations an operation that is put together from others is evaluated
by rewriting, and its definition need not be unfolded below them.
-/

namespace Lockstep

namespace State

/-- The notes about some instructions that are emitted, if emission is traced. -/
def emissionNotes (s : State) (c : Context) (is : List Instr) : List Note :=
  if c.settings.traceEmission then is.map (Note.emitted c.body.callable s.line) else []

/-- The state after some instructions have been appended. -/
def appending (s : State) (c : Context) (is : List Instr) : State :=
  { s with code := s.code ++ is, notes := s.notes ++ s.emissionNotes c is }

def withEntries (s : State) (ts : List ValueType) : State := { s with entries := ts }

/-- A fault at the site that a state has reached. -/
def failure (s : State) (c : Context) (fault : Fault) : Failure :=
  ⟨fault, ⟨c.body.source, c.body.className, c.body.callable, s.line⟩⟩

variable (s : State) (c : Context)

@[simp]
theorem entries_appending (is : List Instr) : (s.appending c is).entries = s.entries := rfl

@[simp]
theorem toList_code_appending (is : List Instr) :
    (s.appending c is).code.toList = s.code.toList ++ is := by
  simp [appending]

@[simp]
theorem labels_appending (is : List Instr) : (s.appending c is).labels = s.labels := rfl

@[simp]
theorem line_appending (is : List Instr) : (s.appending c is).line = s.line := rfl

@[simp]
theorem appending_nil : s.appending c [] = s := by
  simp [appending, emissionNotes]

private theorem append_append_lists {α : Type} (xs : Array α) (ys zs : List α) :
    xs ++ ys ++ zs = xs ++ (ys ++ zs) := by
  apply Array.toList_inj.mp
  simp

@[simp]
theorem appending_appending (is js : List Instr) :
    (s.appending c is).appending c js = s.appending c (is ++ js) := by
  cases traced : c.settings.traceEmission <;>
    simp [appending, emissionNotes, traced, append_append_lists]

@[simp]
theorem failure_appending (is : List Instr) (fault : Fault) :
    (s.appending c is).failure c fault = s.failure c fault := rfl

@[simp]
theorem entries_withEntries (ts : List ValueType) : (s.withEntries ts).entries = ts := rfl

@[simp]
theorem code_withEntries (ts : List ValueType) : (s.withEntries ts).code = s.code := rfl

@[simp]
theorem withEntries_withEntries (ts us : List ValueType) :
    (s.withEntries ts).withEntries us = s.withEntries us := rfl

@[simp]
theorem withEntries_entries : s.withEntries s.entries = s := rfl

/-- Appending code and changing entries do not get into each other's way. -/
@[simp]
theorem appending_withEntries (ts : List ValueType) (is : List Instr) :
    (s.withEntries ts).appending c is = (s.appending c is).withEntries ts := rfl

@[simp]
theorem failure_withEntries (ts : List ValueType) (fault : Fault) :
    (s.withEntries ts).failure c fault = s.failure c fault := rfl

end State

namespace Op

variable {α β : Type} (c : Context) (s : State)

/-! ## Sequences -/

@[simp]
theorem run_pure (a : α) : (pure a : Op α).run c s = .ok a s := rfl

@[simp]
theorem run_bind (op : Op α) (next : α → Op β) :
    (op >>= next).run c s =
      match op.run c s with
      | .ok a after => (next a).run c after
      | .error failure after => .error failure after := by
  change EStateM.bind (op c) (fun a => next a c) s = _
  unfold EStateM.bind run
  cases h : op c s <;> simp [EStateM.run, ReaderT.run, h]

@[simp]
theorem run_map (f : α → β) (op : Op α) :
    (f <$> op).run c s =
      match op.run c s with
      | .ok a after => .ok (f a) after
      | .error failure after => .error failure after := by
  rw [← bind_pure_comp, run_bind]
  rfl

@[simp]
theorem run_ite (p : Prop) [Decidable p] (yes no : Op α) :
    (if p then yes else no).run c s = if p then yes.run c s else no.run c s := by
  split <;> rfl

@[simp]
theorem run_read : (read : Op Context).run c s = .ok c s := rfl

/-! ## Single effects -/

@[simp]
theorem run_fail (fault : Fault) : (fail fault : Op α).run c s = .error (s.failure c fault) s :=
  rfl

@[simp]
theorem run_entries : entries.run c s = .ok s.entries s := rfl

@[simp]
theorem run_setEntries (ts : List ValueType) :
    (setEntries ts).run c s = .ok () (s.withEntries ts) := rfl

@[simp]
theorem run_push (t : ValueType) : (push t).run c s = .ok () (s.withEntries (t :: s.entries)) :=
  rfl

@[simp]
theorem run_emit (i : Instr) : (emit i).run c s = .ok () (s.appending c [i]) := by
  cases traced : c.settings.traceEmission <;>
    simp [emit, State.appending, State.emissionNotes, traced] <;> rfl

@[simp]
theorem run_emitAll (is : List Instr) : (emitAll is).run c s = .ok () (s.appending c is) := by
  induction is generalizing s with
  | nil => simp [emitAll]
  | cons i rest ih => simp [emitAll, ih]

/-! ## Moving entries -/

theorem run_top :
    top.run c s =
      match s.entries with
      | [] => .error (s.failure c (.underflow .topOperand 1 0)) s
      | t :: _ => .ok t s := by
  rcases h : s.entries with _ | ⟨t, rest⟩ <;> simp [top, h]

/-- Discarding down to a mark emits one instruction for each entry that goes. -/
theorem run_popDownTo (mark : Nat) :
    (popDownTo mark).run c s =
      if s.size < mark then .error (s.failure c (.popBelowMark mark s.size)) s
      else
        .ok ()
          ((s.appending c ((s.entries.take (s.size - mark)).map ValueType.discard)).withEntries
            (s.entries.drop (s.size - mark))) := by
  by_cases short : s.entries.length < mark <;> simp [popDownTo, State.size, short]

theorem run_pop :
    pop.run c s =
      match s.entries with
      | [] => .error (s.failure c (.underflow .pop 1 0)) s
      | t :: rest => .ok () ((s.appending c [t.discard]).withEntries rest) := by
  rcases h : s.entries with _ | ⟨t, rest⟩
  · simp [pop, h]
  · have not_lt : ¬ s.size < s.size - 1 := by omega
    have one : s.size - (s.size - 1) = 1 := by simp [State.size, h]
    have popped := run_popDownTo c s (s.size - 1)
    rw [if_neg not_lt, one] at popped
    simpa [pop, State.size, h] using popped

theorem run_replaceMany (t : ValueType) (n : Nat) :
    (replaceMany t n).run c s =
      if s.size < n then .error (s.failure c (.underflow .replace n s.size)) s
      else .ok () (s.withEntries (t :: s.entries.drop n)) := by
  by_cases short : s.entries.length < n <;> simp [replaceMany, State.size, short]

theorem run_replace (t : ValueType) :
    (replace t).run c s =
      match s.entries with
      | [] => .error (s.failure c (.underflow .replace 1 0)) s
      | _ :: rest => .ok () (s.withEntries (t :: rest)) := by
  rw [replace, run_replaceMany]
  rcases h : s.entries with _ | ⟨_, rest⟩ <;> simp [State.size, h]

theorem run_dup :
    dup.run c s =
      match s.entries with
      | [] => .error (s.failure c (.underflow .dup 1 0)) s
      | t :: rest => .ok () ((s.appending c [t.duplicate]).withEntries (t :: t :: rest)) := by
  rcases h : s.entries with _ | ⟨t, rest⟩ <;> simp [dup, h]

theorem run_swap :
    swap.run c s =
      match s.entries with
      | [] => .error (s.failure c (.underflow .swap 1 0)) s
      | [_] => .error (s.failure c (.underflow .swap 2 1)) s
      | top :: below :: rest =>
        .ok () ((s.appending c (top.exchange below)).withEntries (below :: top :: rest)) := by
  rcases h : s.entries with _ | ⟨t, _ | ⟨u, rest⟩⟩ <;> simp [swap, h]

/-- Boxing gives the new type of the top entry, and emits nothing for a
reference. -/
theorem run_box :
    box.run c s =
      match s.entries with
      | [] => .error (s.failure c (.underflow .topOperand 1 0)) s
      | t :: rest =>
        match t.prim? with
        | none => .ok t s
        | some kind =>
          .ok t.box ((s.appending c [.box kind]).withEntries (t.box :: rest)) := by
  rcases h : s.entries with _ | ⟨t, rest⟩
  · simp [box, run_top, h]
  · rcases kind : t.prim? with _ | k <;> simp [box, run_top, run_replace, h, kind]

end Op

end Lockstep
