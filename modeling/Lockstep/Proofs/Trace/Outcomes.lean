import Mathlib
import Lockstep.Proofs.Stack.Calls
import Lockstep.Trace.Replay

/-!
# What a replay makes of the model

Classes decide which instructions a conversion needs, and nothing else.  The model of a
replay, the step at which it stops and the fault that stops it can be computed without
a registry of classes, without code, labels or a log: from the steps, from what types
stand for, and from the type of the cells (`Trace.course`).

What types stand for is a matter of the aliases alone (`Registry.canonical_congr`), and
the aliases of the registry of a trace are those of the trace
(`Trace.aliases_registry`).  So two replays of the same steps and aliases go through
the same models, whatever the classes are and whichever branches the conversions take
(`Trace.replay_agrees`).
-/

namespace Lockstep

/-! ## Steps are calls -/

namespace Step

/-- The call that a step makes. -/
def call : Step → Call
  | .push t => .push t
  | .pop => .pop
  | .popDownTo mark => .popDownTo mark.toNat
  | .remove amount => .remove amount.toNat
  | .replace t n => .replaceMany t n.toNat
  | .dup => .dup
  | .swap => .swap
  | .box => .box
  | .cast t => .cast t
  | .coerce t => .coerce t
  | .castToBool mark ifEmpty => .castToBool mark.toNat ifEmpty
  | .constant value t => .pushLiteral value t
  | .loadVar v cellItself => .loadVariable v cellItself
  | .storeVar v => .storeVariable v
  | .pushBool value => .pushBool value
  | .line n => .setLine n

theorem perform_call (step : Step) : step.call.perform = step.perform := by
  cases step <;> rfl

end Step

/-! ## Aliases -/

namespace Registry

/-- What a type stands for is decided by the aliases. -/
theorem resolve_congr {r r' : Registry} (h : r.aliases = r'.aliases) (steps : Nat)
    (t : ValueType) : r.resolve steps t = r'.resolve steps t := by
  induction steps generalizing t with
  | zero => rfl
  | succ steps ih =>
      cases t with
      | named name =>
          rw [resolve, resolve, h]
          cases r'.aliases.lookup name with
          | none => rfl
          | some target => exact ih target
      | array component => rw [resolve, resolve, ih]
      | primitive kind => rfl
      | boxed kind => rfl

theorem canonical_congr {r r' : Registry} (h : r.aliases = r'.aliases) :
    r.canonical = r'.canonical := by
  funext t
  exact resolve_congr h aliasSteps t

theorem aliases_foldl_declare (decls : List ClassDecl) (r : Registry) :
    (decls.foldl (fun r d => r.declare d.name d.info) r).aliases = r.aliases := by
  induction decls generalizing r with
  | nil => rfl
  | cons d rest ih => exact ih _

theorem aliases_foldl_addAlias (entries : List (String × ValueType)) (r : Registry) :
    (entries.foldl (fun r (name, target) => r.addAlias name target) r).aliases =
      entries.reverse ++ r.aliases := by
  induction entries generalizing r with
  | nil => rfl
  | cons entry rest ih =>
      rw [List.foldl_cons, ih, List.reverse_cons, List.append_assoc]
      rfl

end Registry

namespace Trace

/-- The registry of a trace has the aliases of the trace, and no others. -/
theorem aliases_registry (t : Trace) : t.registry.aliases = t.aliases.entries.reverse := by
  unfold registry
  rw [Registry.aliases_foldl_addAlias, Registry.aliases_foldl_declare]
  exact List.append_nil _

/-! ## The course of a replay -/

/-- A run on the model alone: whether it gets to its end, or else the number of the step
that is refused and the fault, and the entries it has got to. -/
def course (standsFor : ValueType → ValueType) (cell : ValueType) (number : Nat)
    (ts : List ValueType) : List Step → Except (Nat × Fault) Unit × List ValueType
  | [] => (.ok (), ts)
  | step :: rest =>
    match step.call.refusal ts with
    | some fault => (.error (number, fault), ts)
    | none => course standsFor cell (number + 1) (step.call.leaves standsFor cell ts) rest

/-- What a run shows of its model. -/
def seen : Except StepFailure Unit × State → Except (Nat × Fault) Unit × List ValueType
  | (.ok (), s) => (.ok (), s.entries)
  | (.error f, s) => (.error (f.number, f.failure.fault), s.entries)

/-- A run takes the course that its model takes by itself. -/
theorem seen_perform (c : Context) (number : Nat) (s : State) (steps : List Step) :
    seen (perform c number s steps) =
      course c.registry.canonical c.settings.support.cellType number s.entries steps := by
  induction steps generalizing number s with
  | nil => rfl
  | cons step rest ih =>
      rw [perform, course, ← step.perform_call]
      cases hrefusal : step.call.refusal s.entries with
      | some fault =>
          rw [Call.run_of_refusal c s hrefusal]
          rfl
      | none =>
          obtain ⟨after, hrun, hleft⟩ := Call.exists_run_of_refusal c s hrefusal
          rw [hrun, ← hleft]
          exact ih (number + 1) after

theorem seen_replay (t : Trace) (settings : Settings) :
    seen (t.replay settings) =
      course t.registry.canonical settings.support.cellType 1 [] t.steps := by
  refine Eq.trans ?_ (seen_perform (t.context settings) 1 .initial t.steps)
  unfold replay
  split
  · next s hrun =>
    rw [hrun]
    rfl
  · rfl

variable {t t' : Trace} {settings settings' : Settings}

/-- Two replays of the same steps with the same aliases and the same class of cells show
the same, whatever classes are declared. -/
theorem seen_replay_congr (hsteps : t.steps = t'.steps) (haliases : t.aliases = t'.aliases)
    (hcell : settings.support.referenceClass = settings'.support.referenceClass) :
    seen (t.replay settings) = seen (t'.replay settings') := by
  have hregistry : t.registry.aliases = t'.registry.aliases := by
    rw [aliases_registry, aliases_registry, haliases]
  have hcellType : settings.support.cellType = settings'.support.cellType := by
    rw [Support.cellType, Support.cellType, hcell]
  rw [seen_replay, seen_replay, Registry.canonical_congr hregistry, hcellType, hsteps]

/-- Two replays of the same steps with the same aliases and the same class of cells both
succeed and leave the same model, or both fail at the same step with the same fault,
whatever classes are declared. -/
theorem replay_agrees (hsteps : t.steps = t'.steps) (haliases : t.aliases = t'.aliases)
    (hcell : settings.support.referenceClass = settings'.support.referenceClass) :
    (∃ s s', t.replay settings = (.ok (), s) ∧ t'.replay settings' = (.ok (), s') ∧
      s.entries = s'.entries ∧ s.size = s'.size ∧ s.slots = s'.slots) ∨
    ∃ number failure failure' s s', t.replay settings = (.error ⟨number, failure⟩, s) ∧
      t'.replay settings' = (.error ⟨number, failure'⟩, s') ∧ failure.fault = failure'.fault ∧
      s.entries = s'.entries := by
  have hseen := seen_replay_congr hsteps haliases hcell
  match hrun : t.replay settings, hrun' : t'.replay settings' with
  | (.ok (), s), (.ok (), s') =>
      rw [hrun, hrun', seen, seen, Prod.mk.injEq] at hseen
      have hentries : s.entries = s'.entries := hseen.2
      exact .inl ⟨s, s', rfl, rfl, hentries, by rw [State.size, State.size, hentries],
        by rw [State.slots, State.slots, hentries]⟩
  | (.error ⟨number, failure⟩, s), (.error ⟨number', failure'⟩, s') =>
      rw [hrun, hrun', seen, seen, Prod.mk.injEq, Except.error.injEq, Prod.mk.injEq] at hseen
      obtain ⟨⟨hnumber, hfault⟩, hentries⟩ := hseen
      obtain rfl : number = number' := hnumber
      exact .inr ⟨number, failure, failure', s, s', rfl, rfl, hfault, hentries⟩
  | (.ok (), s), (.error f, s') =>
      rw [hrun, hrun', seen, seen, Prod.mk.injEq] at hseen
      exact absurd hseen.1 (by simp)
  | (.error f, s), (.ok (), s') =>
      rw [hrun, hrun', seen, seen, Prod.mk.injEq] at hseen
      exact absurd hseen.1 (by simp)

/-- A trace that casts to an alias of a class, with some declarations of classes and
some more steps. -/
def castTrace (classes : List ClassDecl) (more : List Step) : Trace :=
  ⟨"", "", "", classes, .ofList [("F", .named "E")],
    [.constant .null .string, .cast (.named "F")] ++ more⟩

/-- The declaration of the class as an enumeration. -/
def castEnum : ClassDecl := ⟨"E", .enum, none, []⟩

/-- The class is an enumeration for one trace and unknown to the other. -/
theorem replay_agrees_enum :
    ((castTrace [castEnum] []).registry.isEnum (.named "E") = true ∧
      (castTrace [] []).registry.isEnum (.named "E") = false) ∧
    (∃ s s', (castTrace [castEnum] []).replay .standard = (.ok (), s) ∧
      (castTrace [] []).replay .standard = (.ok (), s') ∧
      s.entries = [.named "E"] ∧ s'.entries = [.named "E"]) ∧
    ∃ failure failure' s s',
      (castTrace [castEnum] [.pop, .pop]).replay .standard = (.error ⟨4, failure⟩, s) ∧
      (castTrace [] [.pop, .pop]).replay .standard = (.error ⟨4, failure'⟩, s') ∧
      failure.fault = .underflow .pop 1 0 ∧ failure'.fault = .underflow .pop 1 0 := by
  have hsuccess : seen ((castTrace [castEnum] []).replay .standard) = (.ok (), [.named "E"]) :=
    (seen_replay _ _).trans rfl
  have hfailure : seen ((castTrace [castEnum] [.pop, .pop]).replay .standard) =
      (.error (4, .underflow .pop 1 0), []) := (seen_replay _ _).trans rfl
  refine ⟨⟨rfl, rfl⟩, ?_, ?_⟩
  · rcases @replay_agrees (castTrace [castEnum] []) (castTrace [] []) .standard .standard
      rfl rfl rfl with
      ⟨s, s', hrun, hrun', hentries, -⟩ | ⟨number, failure, failure', s, s', hrun, -⟩
    · rw [hrun] at hsuccess
      have hleft : s.entries = [.named "E"] := congrArg Prod.snd hsuccess
      exact ⟨s, s', hrun, hrun', hleft, hentries ▸ hleft⟩
    · rw [hrun] at hsuccess
      cases congrArg Prod.fst hsuccess
  · rcases @replay_agrees (castTrace [castEnum] [.pop, .pop]) (castTrace [] [.pop, .pop])
      .standard .standard rfl rfl rfl with
      ⟨s, s', hrun, -⟩ | ⟨number, failure, failure', s, s', hrun, hrun', hfault, -⟩
    · rw [hrun] at hfailure
      cases congrArg Prod.fst hfailure
    · rw [hrun] at hfailure
      have hstop : Except.error (number, failure.fault) =
          (Except.error (4, .underflow .pop 1 0) : Except (Nat × Fault) Unit) :=
        congrArg Prod.fst hfailure
      rw [Except.error.injEq, Prod.mk.injEq] at hstop
      obtain ⟨rfl, hpop⟩ := hstop
      exact ⟨failure, failure', s, s', hrun, hrun', hpop, hfault ▸ hpop⟩

end Trace

end Lockstep
