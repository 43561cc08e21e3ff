import Lockstep.Proofs.Flow.Verdict
import Lockstep.Proofs.Machine.Truth
import Lockstep.Trace.Replay

/-!
# Model and machine in lock-step

The code of a run of operations makes of the machine's stack exactly what the
operations make of the model.

## Strategy

`Follows v most s s' code` is the invariant of a run that has got from one state to
another: the code is what was appended, its labels are in order and were all handed
out in this run, and it carries the machine, in the view `v`, from the one model to
the other within four slots more than `most`.  An operation establishes it
(`Step.follows_of_perform`, one case for each), it is closed under composition
(`Follows.append`), and so a run has it too (`Trace.follows_of_perform`).

Run in the view of widths it says that the check of heights accepts the code, and in
the view of kinds that every instruction finds the operands it needs.  The views
differ in one point.  A variable is stored with the carrier of its declared type,
but what is on the stack has been cast to the type that it stands for; so these two
have to look alike.
-/

namespace Lockstep

open Lockstep.Flow

variable {α : Type} [DecidableEq α] {v : View α} {c : Context} {s s' s'' : State}

/-! ## The invariant -/

/-- The code of a run makes of the machine's stack what the run makes of the model. -/
structure Follows (v : View α) (most : Nat) (s s' : State) (code : List Instr) : Prop where
  emitted : s'.code.toList = s.code.toList ++ code
  allotted : s.labels ≤ s'.labels
  labelled : WellLabelled code
  fresh : ∀ label, .mark label ∈ code → s.labels ≤ label.id ∧ label.id < s'.labels
  carries : ∀ limit, most + 4 ≤ limit →
    Carries (v.bounded limit) code (v.stack s.entries) (v.stack s'.entries)

namespace Follows

variable {most : Nat} {a b code : List Instr}

theorem mono {more : Nat} (h : Follows v most s s' code) (hmore : most ≤ more) :
    Follows v more s s' code :=
  { h with carries := fun limit hlimit => h.carries limit (by omega) }

theorem append (ha : Follows v most s s' a) (hb : Follows v most s' s'' b) :
    Follows v most s s'' (a ++ b) := by
  -- what the second part marks was handed out after all that the first part marks
  have hapart : Apart a b := by
    intro label hla hlb
    have hold := (ha.fresh label hla).2
    have hnew := (hb.fresh label hlb).1
    omega
  refine ⟨?_, ha.allotted.trans hb.allotted, ha.labelled.append hb.labelled hapart, ?_, ?_⟩
  · rw [hb.emitted, ha.emitted, List.append_assoc]
  · intro label hlabel
    have hle := ha.allotted
    have hle' := hb.allotted
    rcases List.mem_append.mp hlabel with hla | hlb
    · have hrange := ha.fresh label hla
      omega
    · have hrange := hb.fresh label hlb
      omega
  · intro limit hlimit
    exact Carries.append ha.labelled hb.labelled hapart (ha.carries limit hlimit)
      (hb.carries limit hlimit)

/-- Straight code takes no labels. -/
theorem of_moves (h : Moves v code (v.stack s.entries) (v.stack s'.entries) 4)
    (hcode : s'.code.toList = s.code.toList ++ code) (hlabels : s'.labels = s.labels) :
    Follows v s.slots s s' code := by
  refine ⟨hcode, hlabels.ge, h.straight.wellLabelled, fun label hmark => ?_, fun limit hlimit => ?_⟩
  · exact absurd hmark (h.straight.not_mark_mem label)
  · refine h.carries ?_
    rw [v.slots_stack]
    exact hlimit

end Follows

/-! ## One operation -/

/-- The value that a step stores looks like the declared type of its variable. -/
def Step.StoresAlike (v : View α) (r : Registry) : Step → Prop
  | .storeVar x => x.holder = false → v.of (r.canonical x.type).carrier = v.of x.type.carrier
  | _ => True

theorem follows_of_convert {target : ValueType} {explicit : Bool}
    (h : (Op.convert target explicit).run c s = .ok () s') :
    ∃ code, Follows v s.slots s s' code := by
  cases hentries : s.entries with
  | nil => simp [Op.convert, hentries] at h
  | cons t rest =>
      rw [Op.run_convert c s hentries] at h
      cases h
      refine ⟨_, .of_moves ?_ (by simp; rfl) rfl⟩
      rw [hentries]
      exact (moves_conversionCode (v.stack rest) t _ explicit).mono (by decide)

theorem follows_of_popDownTo {mark : Nat} (h : (Op.popDownTo mark).run c s = .ok () s') :
    ∃ code, Follows v s.slots s s' code := by
  rw [Op.run_popDownTo] at h
  split at h
  · cases h
  · cases h
    have hsplit := List.take_append_drop (s.size - mark) s.entries
    refine ⟨(s.entries.take (s.size - mark)).map ValueType.discard, .of_moves ?_ (by simp) rfl⟩
    nth_rewrite 2 [← hsplit]
    rw [v.stack_append]
    exact (moves_discards _ _).mono (by decide)

theorem follows_of_box (h : (discard Op.box).run c s = .ok () s') :
    ∃ code, Follows v s.slots s s' code := by
  cases hentries : s.entries with
  | nil => simp [Op.run_box, hentries] at h
  | cons t rest =>
      rw [Op.run_discard, Op.run_box_cons c s hentries] at h
      cases h
      refine ⟨t.boxing, .of_moves ?_ (by simp) rfl⟩
      rw [hentries]
      show Moves v _ _ (v.of t.box.carrier :: v.stack rest) 4
      rw [t.carrier_box]
      exact (moves_boxing (v.stack rest) t).mono (by decide)

/-- A test takes fresh labels, and no labels but these. -/
theorem follows_of_castToBool {mark : Nat} {ifEmpty : Bool}
    (h : (Op.castToBool mark ifEmpty).run c s = .ok () s') :
    ∃ code, Follows v s.slots s s' code := by
  rw [Op.run_castToBool] at h
  split at h
  · cases h
    have hload : Loads .int (.bytePush (if ifEmpty then 1 else 0)) := ⟨rfl, rfl, rfl⟩
    exact ⟨_, .of_moves ((hload.moves _).mono (by decide)) (by simp) rfl⟩
  · split at h
    · cases h
    · next t rest hentries =>
      split at h
      · cases h
        obtain ⟨hlabelled, hfresh⟩ := t.wellLabelled_truthCode c.settings.support s.labels
        refine ⟨t.truthCode c.settings.support s.labels, by simp, Nat.le_add_right _ _,
          hlabelled, hfresh, fun limit hlimit => ?_⟩
        rw [State.slots, ← v.slots_stack, hentries] at hlimit
        rw [hentries]
        exact carries_truthCode (v.stack rest) t _ hlimit
      · cases h

theorem follows_of_storeVariable {x : Variable}
    (hstores : x.holder = false → v.of (c.registry.canonical x.type).carrier = v.of x.type.carrier)
    (h : (Op.storeVariable x).run c s = .ok () s') : ∃ code, Follows v s.slots s s' code := by
  cases hentries : s.entries with
  | nil => simp [Op.storeVariable, Op.cast, Op.convert, hentries] at h
  | cons t rest =>
      rw [Op.run_storeVariable c s hentries] at h
      cases h
      have hconversion := moves_conversionCode (v := v) (c := c) (v.stack rest) t
        (c.registry.canonical x.type) false
      have hstoring := moves_storing (v.stack rest) x c.settings.support _ hstores
      refine ⟨_, .of_moves ?_ (by simp; rfl) rfl⟩
      rw [hentries]
      exact (hconversion.append hstoring).mono (by decide)

theorem follows_of_pushBool {value : Bool} (h : (Op.pushBool value).run c s = .ok () s') :
    ∃ code, Follows v s.slots s s' code := by
  have hrun : (Op.pushBool value).run c s = .ok () ((s.appending c
      [.intConst (if value then 1 else 0)]).withEntries (.boolean :: s.entries)) := by
    simp [Op.pushBool]
  rw [hrun] at h
  cases h
  have hload : Loads .int (.intConst (if value then 1 else 0)) := ⟨rfl, rfl, rfl⟩
  exact ⟨_, .of_moves ((hload.moves _).mono (by decide)) (by simp) rfl⟩

/-- Every operation that emits its own code keeps machine and model together. -/
theorem Step.follows_of_perform {step : Step} (hemits : step.isModelOnly = false)
    (hstores : step.StoresAlike v c.registry) (h : step.perform.run c s = .ok () s') :
    ∃ code, Follows v s.slots s s' code := by
  cases step with
  | push t => cases hemits
  | remove amount => cases hemits
  | replace t n => cases hemits
  | pop =>
      rw [Step.perform, Op.run_pop] at h
      split at h
      · cases h
      · next t rest hentries =>
        cases h
        refine ⟨[t.discard], .of_moves ?_ (by simp) rfl⟩
        rw [hentries]
        exact (moves_discard (v.stack rest) t).mono (by decide)
  | popDownTo mark => exact follows_of_popDownTo h
  | dup =>
      rw [Step.perform, Op.run_dup] at h
      split at h
      · cases h
      · next t rest hentries =>
        cases h
        refine ⟨[t.duplicate], .of_moves ?_ (by simp) rfl⟩
        rw [hentries]
        exact (moves_duplicate (v.stack rest) t).mono (by decide)
  | swap =>
      rw [Step.perform, Op.run_swap] at h
      split at h
      · cases h
      · cases h
      · next top below rest hentries =>
        cases h
        refine ⟨top.exchange below, .of_moves ?_ (by simp) rfl⟩
        rw [hentries]
        exact (moves_exchange (v.stack rest) top below).mono (by decide)
  | box => exact follows_of_box h
  | cast t => exact follows_of_convert h
  | coerce t => exact follows_of_convert h
  | castToBool mark ifEmpty => exact follows_of_castToBool h
  | constant value t =>
      rw [Step.perform, Op.run_pushLiteral] at h
      split at h
      · next code loaded hload =>
        cases h
        exact ⟨code, .of_moves ((moves_load _ hload).mono (by decide)) (by simp) rfl⟩
      · cases h
  | loadVar x cellItself =>
      rw [Step.perform, Op.run_loadVariable] at h
      cases h
      exact ⟨_, .of_moves ((moves_loading _ x _ cellItself).mono (by decide)) (by simp) rfl⟩
  | storeVar x => exact follows_of_storeVariable hstores h
  | pushBool value => exact follows_of_pushBool h
  | line n =>
      cases h
      exact ⟨[], .of_moves ((Moves.nil v _).mono (by decide)) (by simp) rfl⟩

/-! ## Runs -/

namespace Trace

/-- The largest number of slots of the model before or after any step. -/
def peak (c : Context) (s : State) : List Step → Nat
  | [] => s.slots
  | step :: rest =>
    match step.perform.run c s with
    | .ok _ after => max s.slots (peak c after rest)
    | .error _ _ => s.slots

theorem peak_cons {step : Step} {rest : List Step} (h : step.perform.run c s = .ok () s') :
    peak c s (step :: rest) = max s.slots (peak c s' rest) := by
  rw [peak, h]

variable {number : Nat} {steps : List Step}

/-- A run of operations that emit their own code keeps machine and model together. -/
theorem follows_of_perform (hemits : ∀ step ∈ steps, step.isModelOnly = false)
    (hstores : ∀ step ∈ steps, step.StoresAlike v c.registry)
    (h : perform c number s steps = (.ok (), s')) :
    ∃ code, Follows v (peak c s steps) s s' code := by
  induction steps generalizing number s with
  | nil =>
      cases h
      exact ⟨[], .of_moves ((Moves.nil v _).mono (by decide)) (by simp) rfl⟩
  | cons step rest ih =>
      rw [List.forall_mem_cons] at hemits hstores
      unfold perform at h
      split at h
      · next after hstep =>
        obtain ⟨a, ha⟩ := Step.follows_of_perform hemits.1 hstores.1 hstep
        obtain ⟨b, hb⟩ := ih hemits.2 hstores.2 h
        rw [peak_cons hstep]
        exact ⟨a ++ b, (ha.mono (Nat.le_max_left _ _)).append (hb.mono (Nat.le_max_right _ _))⟩
      · cases h

end Trace

/-! ## Heights -/

/-- The bounded machine keeps the heights within the limit. -/
theorem carries_slots {code : List Instr} {limit : Nat} {before after : List α}
    (h : Carries (v.bounded limit) code before after) :
    Carries (Instr.within limit) code (v.slots before) (v.slots after) := by
  refine h.map v.slots fun {p i x y} _ _ hstep => ?_
  obtain ⟨hact, hle⟩ := v.bounded_eq_some_iff.mp hstep
  obtain ⟨hpops, hslots⟩ := v.act_eq_some hact
  exact Instr.within_eq_some_iff.mpr ⟨hpops, hslots ▸ hle, hslots.symm⟩

/-- The code of a run moves the height of the machine's stack exactly as the run
moves the model. -/
theorem verify_of_perform {number : Nat} {steps : List Step}
    (h : Trace.perform c number s steps = (.ok (), s'))
    (hemits : ∀ step ∈ steps, step.isModelOnly = false)
    (hstores : ∀ x, .storeVar x ∈ steps → x.holder = false →
      (c.registry.canonical x.type).width = x.type.width) :
    ∃ code, s'.code.toList = s.code.toList ++ code ∧
      (∀ limit, Trace.peak c s steps + 4 ≤ limit → verify limit code s.slots = .ok s'.slots) ∧
      ∀ limit, verify limit code s.slots = .ok s'.slots ∨
        ∃ p height, verify limit code s.slots = .error (.overflow p height limit) := by
  have halike : ∀ step ∈ steps, step.StoresAlike View.widths c.registry := by
    intro step hstep
    cases step with
    | storeVar x =>
        intro hholder
        have hwidth := hstores x hstep hholder
        rwa [← View.width_carrier, ← View.width_carrier] at hwidth
    | _ => trivial
  obtain ⟨code, hfollows⟩ := Trace.follows_of_perform hemits halike h
  have hcarries : ∀ limit, Trace.peak c s steps + 4 ≤ limit →
      Carries (Instr.within limit) code s.slots s'.slots := by
    intro limit hlimit
    have hslots := carries_slots (hfollows.carries limit hlimit)
    rwa [View.slots_stack, View.slots_stack] at hslots
  refine ⟨code, hfollows.emitted, fun limit hlimit => ?_, fun limit => ?_⟩
  · exact verify_eq_ok_iff.mpr ⟨hfollows.labelled, hcarries limit hlimit⟩
  · exact (hcarries _ (Nat.le_refl _)).verify_eq_ok_or_overflow hfollows.labelled limit

/-- A run through a test with branches, an exchange by way of a copy, a coercion and
a cell. -/
def mixedSteps : List Step :=
  [.line 3, .constant (.double ⟨0⟩) (.primitive .double), .constant (.long 5) (.primitive .long),
    .swap, .castToBool 1 false, .storeVar ⟨"x", 0, .primitive .int, false⟩, .coerce .string,
    .storeVar ⟨"y", 1, .object, true⟩]

/-- A context without classes of its own. -/
def bareContext : Context := ⟨.empty, .standard, ⟨"a", "b", "c"⟩⟩

/-- The test of the `double` above the `long` needs just the four slots beyond the
four that the model takes. -/
theorem verify_of_perform_mixed :
    ∃ s' : State, Trace.perform bareContext 1 .initial mixedSteps = (.ok (), s') ∧
      s'.code.size = 28 ∧ verify 8 s'.code.toList 0 = .ok 0 := by
  let s' := (Trace.perform bareContext 1 .initial mixedSteps).2
  have hrun : Trace.perform bareContext 1 .initial mixedSteps = (.ok (), s') := rfl
  have hemits : ∀ step ∈ mixedSteps, step.isModelOnly = false := by decide
  have hstores : ∀ x, .storeVar x ∈ mixedSteps → x.holder = false →
      (bareContext.registry.canonical x.type).width = x.type.width := by
    intro x hx hholder
    simp [mixedSteps] at hx
    rcases hx with rfl | rfl
    · rfl
    · cases hholder
  obtain ⟨code, hcode, haccepted, -⟩ := verify_of_perform hrun hemits hstores
  have hpeak : Trace.peak bareContext .initial mixedSteps = 4 := rfl
  have hall : s'.code.toList = code := hcode
  refine ⟨s', hrun, rfl, ?_⟩
  rw [hall]
  exact haccepted 8 (by rw [hpeak])

/-! ## Kinds -/

/-- Wherever control can get to in the code of a run, the machine gets to; on each
path every instruction finds operands of the kinds it needs; all paths to a position
arrive with the same kinds; and the end is reached with exactly the kinds of the
model. -/
theorem kinds_of_perform {number : Nat} {steps : List Step}
    (h : Trace.perform c number s steps = (.ok (), s'))
    (hemits : ∀ step ∈ steps, step.isModelOnly = false)
    (hstores : ∀ x, .storeVar x ∈ steps → x.holder = false →
      (c.registry.canonical x.type).carrier = x.type.carrier) :
    ∃ code, s'.code.toList = s.code.toList ++ code ∧ WellLabelled code ∧
      (∀ p, Relation.ReflTransGen (Goes code) 0 p →
        ∃ kinds, Reaches View.kinds.act code (s.entries.map ValueType.carrier) p kinds) ∧
      (∀ p kinds i, Reaches View.kinds.act code (s.entries.map ValueType.carrier) p kinds →
        code[p]? = some i → (View.kinds.act i kinds).isSome) ∧
      (∀ p kinds kinds', Reaches View.kinds.act code (s.entries.map ValueType.carrier) p kinds →
        Reaches View.kinds.act code (s.entries.map ValueType.carrier) p kinds' →
          kinds = kinds') ∧
      ∀ kinds, Reaches View.kinds.act code (s.entries.map ValueType.carrier) code.length kinds ↔
        kinds = s'.entries.map ValueType.carrier := by
  have halike : ∀ step ∈ steps, step.StoresAlike View.kinds c.registry := by
    intro step hstep
    cases step with
    | storeVar x => exact hstores x hstep
    | _ => trivial
  obtain ⟨code, hfollows⟩ := Trace.follows_of_perform hemits halike h
  have hcarries : Carries View.kinds.act code (s.entries.map ValueType.carrier)
      (s'.entries.map ValueType.carrier) :=
    (hfollows.carries _ (Nat.le_refl _)).map id fun _ _ hstep =>
      (View.kinds.bounded_eq_some_iff.mp hstep).1
  refine ⟨code, hfollows.emitted, hfollows.labelled, fun p hp => hcarries.exists_of_reflTransGen hp,
    fun p kinds i hkinds hi => hcarries.progress hkinds hi,
    fun p kinds kinds' hkinds hkinds' => hcarries.agree hkinds hkinds', fun kinds => ⟨?_, ?_⟩⟩
  · intro hkinds
    exact hcarries.agree hkinds hcarries.ends
  · rintro rfl
    exact hcarries.ends

/-- All paths through the test and to the end are in order, and nothing is left. -/
theorem kinds_of_perform_mixed :
    ∃ s' : State, Trace.perform bareContext 1 .initial mixedSteps = (.ok (), s') ∧
      (∀ p kinds i, Reaches View.kinds.act s'.code.toList [] p kinds →
        s'.code.toList[p]? = some i → (View.kinds.act i kinds).isSome) ∧
      ∀ kinds, Reaches View.kinds.act s'.code.toList [] 28 kinds ↔ kinds = [] := by
  let s' := (Trace.perform bareContext 1 .initial mixedSteps).2
  have hrun : Trace.perform bareContext 1 .initial mixedSteps = (.ok (), s') := rfl
  have hemits : ∀ step ∈ mixedSteps, step.isModelOnly = false := by decide
  have hstores : ∀ x, .storeVar x ∈ mixedSteps → x.holder = false →
      (bareContext.registry.canonical x.type).carrier = x.type.carrier := by
    intro x hx hholder
    simp [mixedSteps] at hx
    rcases hx with rfl | rfl
    · rfl
    · cases hholder
  obtain ⟨code, hcode, -, -, hprogress, -, hend⟩ := kinds_of_perform hrun hemits hstores
  have hall : s'.code.toList = code := hcode
  have hlength : code.length = 28 := by
    rw [← hall]
    rfl
  refine ⟨s', hrun, ?_, ?_⟩
  · rw [hall]
    exact hprogress
  · rw [hall, ← hlength]
    exact hend

end Lockstep
