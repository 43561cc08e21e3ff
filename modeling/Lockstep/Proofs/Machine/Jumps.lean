import Lockstep.Proofs.Machine.Regions
import Lockstep.Proofs.Machine.Stores

/-!
# What a jump takes

A conditional jump drops the top entry of the model, of any type.  Its instruction takes one
slot, with an int or a reference in it as the condition says.  So the model and the machine
agree about a jump exactly if the entry is carried as the condition wants it
(`jump_takes_top`).  Of a `long` or a `double` the machine is left with a slot that the model
has lost; anything else of the wrong kind is as wide as what the jump takes, and so the
heights agree, but the machine cannot go on.

What a reduction to a truth value leaves is carried as the conditions on ints want it, so a
jump on it never gets the two apart (`jump_after_castToBool`).  The check of heights sees no
more than the slots: after any run it accepts a jump on whatever is on top, and ends above
the model by the slot that was lost (`verify_jump_of_perform`).
-/

namespace Lockstep

open Lockstep.Flow

variable {c : Context} {s s' after : State} {cond : Cond}

namespace Call

/-- The condition of a call that jumps. -/
def condition? : Call → Option Cond
  | .jump cond => some cond
  | .jumpTo cond _ => some cond
  | _ => none

variable {call : Call}

/-- A jump that succeeds drops the top entry and appends its instruction, to a label of its
own or to a given one. -/
theorem drops_of_condition? (hcond : call.condition? = some cond)
    (h : call.perform.run c s = .ok () after) :
    ∃ t label, s.entries = t :: after.entries ∧
      after.code.toList = s.code.toList ++ [.jump cond label] := by
  cases call with
  | jump cond' =>
      obtain rfl : cond' = cond := Option.some.inj hcond
      rw [perform, Op.run_discard, Op.run_jump] at h
      cases hentries : s.entries with
      | nil =>
          rw [hentries] at h
          cases h
      | cons t rest =>
          rw [hentries] at h
          cases h
          exact ⟨t, ⟨s.labels⟩, rfl, by simp⟩
  | jumpTo cond' label =>
      obtain rfl : cond' = cond := Option.some.inj hcond
      rw [perform, Op.run_jumpTo] at h
      cases hentries : s.entries with
      | nil =>
          rw [hentries] at h
          cases h
      | cons t rest =>
          rw [hentries] at h
          cases h
          exact ⟨t, label, rfl, by simp⟩
  | _ => cases hcond

end Call

/-! ## Model and machine at a jump -/

/-- A value that is carried as a condition wants it takes one slot. -/
theorem Cond.width_carrier (cond : Cond) : cond.carrier.width = .one := by
  cases cond <;> rfl

/-- The machine can execute a jump on what is carried as its condition wants it. -/
theorem runs_jump (cond : Cond) (label : Label) (top : Carrier) (values : List Carrier) :
    runs View.kinds.act [.jump cond label] (top :: values) =
      if top = cond.carrier then some values else none :=
  runs_of_consuming rfl top values

theorem State.slots_eq_of_entries {t : ValueType} (h : s.entries = t :: after.entries) :
    s.slots = after.slots + t.slots := by
  calc s.slots = t.slots + after.slots := by rw [State.slots, h]; rfl
    _ = after.slots + t.slots := Nat.add_comm _ _

/-- The machine loses as many slots as the model if the entry that is dropped takes one, and
otherwise not. -/
theorem slots_eq_add_pops_iff {t : ValueType} (h : s.entries = t :: after.entries) (cond : Cond)
    (label : Label) :
    s.slots = after.slots + (Instr.jump cond label).effect.pops ↔ t.width = .one := by
  rw [State.slots_eq_of_entries h, Nat.add_left_cancel_iff]
  unfold ValueType.slots
  cases t.width <;> simp [Width.slots, Instr.effect]

/-- A jump drops one entry, whatever its type is.  The machine can execute the jump exactly if
the entry is carried as the condition wants it, and is then left with what the model has, as
many slots lower as the jump takes.  The heights agree for entries of one slot and for no
others. -/
theorem jump_takes_top {call : Call} (hcond : call.condition? = some cond)
    (h : call.perform.run c s = .ok () after) :
    ∃ t label, s.entries = t :: after.entries ∧
      after.code.toList = s.code.toList ++ [.jump cond label] ∧
      (runs View.kinds.act [.jump cond label] (s.entries.map ValueType.carrier) =
        if t.carrier = cond.carrier then some (after.entries.map ValueType.carrier) else none) ∧
      (t.carrier = cond.carrier → s.slots = after.slots + (Instr.jump cond label).effect.pops) ∧
      (s.slots = after.slots + (Instr.jump cond label).effect.pops ↔ t.width = .one) := by
  obtain ⟨t, label, hentries, hcode⟩ := Call.drops_of_condition? hcond h
  have hheights := slots_eq_add_pops_iff hentries cond label
  refine ⟨t, label, hentries, hcode, ?_, ?_, hheights⟩
  · rw [hentries]
    exact runs_jump cond label t.carrier _
  · intro hcarrier
    rw [hheights, ← View.width_carrier, hcarrier]
    exact cond.width_carrier

/-- A truth value above a `long`: the jump takes the truth value and leaves the `long`. -/
theorem jump_takes_top_truth :
    ∃ after label, (Call.jump .isZero).perform.run bareContext conditionState = .ok () after ∧
      after.code.toList = [.jump .isZero label] ∧
      runs View.kinds.act [.jump .isZero label] [.int, .long] = some [.long] ∧
      after.entries = [.primitive .long] ∧ conditionState.slots = after.slots + 1 := by
  let after : State := ⟨[.primitive .long], #[.jump .isZero ⟨0⟩], 1, 0, #[.removed 1 1]⟩
  have hrun : (Call.jump .isZero).perform.run bareContext conditionState = .ok () after := rfl
  obtain ⟨t, label, hentries, hcode, hgoes, hslots, -⟩ := jump_takes_top rfl hrun
  obtain rfl : ValueType.boolean = t := (List.cons.inj hentries).1
  exact ⟨after, label, hrun, hcode, hgoes, rfl, hslots rfl⟩

/-- A `long` that has just been loaded.  The jump on it succeeds; the model is empty then, and
the machine cannot go on, with one slot left by the heights. -/
theorem jump_takes_top_long :
    ∃ s after : State,
      (Op.pushLiteral (.long 1) (.primitive .long)).run bareContext .initial = .ok () s ∧
      (Op.jump .isZero).run bareContext s = .ok ⟨0⟩ after ∧
      s.entries = [.primitive .long] ∧ after.entries = [] ∧
      after.code.toList = s.code.toList ++ [.jump .isZero ⟨0⟩] ∧
      (ValueType.primitive .long).carrier ≠ Cond.isZero.carrier ∧
      s.slots ≠ after.slots + (Instr.jump .isZero ⟨0⟩).effect.pops ∧
      runs View.kinds.act [.jump .isZero ⟨0⟩] (s.entries.map ValueType.carrier) = none ∧
      verify standardLimit (region .isZero ⟨0⟩ []) s.slots = .ok (after.slots + 1) := by
  have hverdict : verify standardLimit (region .isZero ⟨0⟩ []) 2 = .ok 1 :=
    verify_eq_ok_iff.mpr ⟨wellLabelled_region .nil List.not_mem_nil,
      carries_region .nil List.not_mem_nil rfl (.of_runs (by simp [Straight]) rfl) rfl⟩
  exact ⟨_, _, rfl, rfl, rfl, rfl, rfl, by decide, by decide, rfl, hverdict⟩

/-! ## Jumps on conditions -/

/-- What a reduction leaves is a truth value. -/
theorem exists_entries_of_castToBool {mark : Nat} {ifEmpty : Bool}
    (h : (Op.castToBool mark ifEmpty).run c s = .ok () s') :
    ∃ rest, s'.entries = .boolean :: rest := by
  rw [Op.run_castToBool] at h
  split at h
  · cases h
    exact ⟨s.entries, rfl⟩
  · split at h
    · cases h
    · next t rest hentries =>
      split at h
      · cases h
        exact ⟨rest, rfl⟩
      · cases h

/-- After a reduction to a truth value, a jump that looks at an int succeeds, and the machine
can execute it and is left with what the model has. -/
theorem jump_after_castToBool {call : Call} {mark : Nat} {ifEmpty : Bool}
    (hcast : (Op.castToBool mark ifEmpty).run c s = .ok () s')
    (hcond : call.condition? = some cond) (hint : cond.carrier = .int) :
    ∃ after label, call.perform.run c s' = .ok () after ∧
      after.code.toList = s'.code.toList ++ [.jump cond label] ∧
      runs View.kinds.act [.jump cond label] (s'.entries.map ValueType.carrier) =
        some (after.entries.map ValueType.carrier) ∧
      s'.slots = after.slots + (Instr.jump cond label).effect.pops := by
  obtain ⟨rest, htop⟩ := exists_entries_of_castToBool hcast
  have hrefusal : call.refusal s'.entries = none := by
    rw [htop]
    cases call <;> first | rfl | cases hcond
  obtain ⟨after, hrun, -⟩ := Call.exists_run_of_refusal c s' hrefusal
  obtain ⟨t, label, hentries, hcode⟩ := Call.drops_of_condition? hcond hrun
  obtain rfl : ValueType.boolean = t := (List.cons.inj (htop.symm.trans hentries)).1
  refine ⟨after, label, hrun, hcode, ?_, (slots_eq_add_pops_iff hentries cond label).mpr rfl⟩
  rw [hentries, List.map_cons, runs_jump]
  exact if_pos hint.symm

/-! ## A jump at the end of a run -/

theorem ValueType.one_le_slots (t : ValueType) : 1 ≤ t.slots := by
  unfold slots
  cases t.width <;> decide

/-- The code of a run, a jump and the mark of its label are accepted.  The height at the end is
that of the model, and greater by the slot that is left of an entry with two. -/
theorem verify_jump_of_perform {number : Nat} {steps : List Step} {t : ValueType}
    {rest : List ValueType} (hsteps : Trace.perform c number s steps = (.ok (), s'))
    (hemits : ∀ step ∈ steps, step.isModelOnly = false)
    (hstores : ∀ x, .storeVar x ∈ steps → x.holder = false →
      (c.registry.canonical x.type).width = x.type.width)
    (hentries : s'.entries = t :: rest) (cond : Cond) :
    ∃ label after code, (Op.jump cond).run c s' = .ok label after ∧
      after.code.toList ++ [.mark label] = s.code.toList ++ code ∧
      ∀ limit, Trace.peak c s steps + 4 ≤ limit →
        verify limit code s.slots = .ok (after.slots + (t.slots - 1)) := by
  obtain ⟨body, hfollows⟩ := Trace.exists_follows_of_perform hsteps hemits hstores
  have hrun := Op.run_jump c s' cond
  rw [hentries] at hrun
  refine ⟨_, _, body ++ region cond ⟨s'.labels⟩ [], hrun, ?_, fun limit hlimit => ?_⟩
  · simp [hfollows.emitted, region]
  generalize hafter : ((((s'.allotting 1).appending c [.jump cond ⟨s'.labels⟩]).noting
    [.removed 1 rest.length]).withEntries rest) = after
  have hslots : s'.slots = after.slots + t.slots := by
    apply State.slots_eq_of_entries
    rw [hentries, ← hafter]
    rfl
  have hpositive := t.one_le_slots
  have hmoves := hfollows.carries_within hlimit
  have hle : s'.slots ≤ limit := by
    have hpeak := Trace.slots_le_peak c s steps
    exact le_of_reaches_within (by omega) hmoves.ends
  have hjump : (Instr.jump cond ⟨s'.labels⟩).within limit s'.slots =
      some (after.slots + (t.slots - 1)) := by
    refine Instr.within_eq_some_iff.mpr ?_
    simp only [Instr.heightAfter, Instr.effect]
    omega
  have hregion : Carries (Instr.within limit) (region cond ⟨s'.labels⟩ []) s'.slots
      (after.slots + (t.slots - 1)) :=
    carries_region .nil List.not_mem_nil hjump (.of_runs (by simp [Straight]) rfl)
      (within_mark _ (by omega))
  have hlabels : WellLabelled (region cond ⟨s'.labels⟩ []) :=
    wellLabelled_region .nil List.not_mem_nil
  -- the label of the jump was handed out after those of the run
  have hapart : Apart body (region cond ⟨s'.labels⟩ []) := by
    intro label hbody hmark
    have hfresh := (hfollows.fresh label hbody).2
    have hsame : label = ⟨s'.labels⟩ := by simpa [region] using hmark
    rw [hsame] at hfresh
    exact absurd hfresh (Nat.lt_irrefl _)
  exact verify_eq_ok_iff.mpr ⟨hfollows.labelled.append hlabels hapart,
    Carries.append hfollows.labelled hlabels hapart hmoves hregion⟩

end Lockstep
