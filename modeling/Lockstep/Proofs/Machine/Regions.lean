import Lockstep.Proofs.Machine.Runs
import Lockstep.Proofs.Stack.Calls

/-!
# Conditional regions

A conditional jump, some operations that it skips, and the mark of its label.  The
label is taken before the operations take theirs, and they may go below the level of
the jump and build up again; all that counts is the height at the mark.

## Strategy

Two ways lead to the mark: the jump itself, with the height right after it, and the code
of the operations, with the height that the model has got to.  No other jump leads there,
since the operations name only labels that they took themselves.  So a path behind the
jump is a path through the code and the mark, or through the mark alone
(`Reaches.of_region`).

If the two heights are one, the region carries like its body (`carries_region`).  If they
are not, nothing goes wrong before the mark (`Reaches.progress_region`), and there the
check compares them; the height of the jump is the one that it expects, since a jump
settles its target before its successor.
-/

namespace Lockstep

open Lockstep.Flow

namespace Flow

/-- Code between a conditional jump and the mark that it jumps to. -/
def region (cond : Cond) (label : Label) (body : List Instr) : List Instr :=
  [.jump cond label] ++ (body ++ [.mark label])

section Region

variable {σ : Type} {act : Instr → σ → Option σ} {cond : Cond} {label : Label}
  {body : List Instr} {s t u x : σ} {p : Nat}

/-! ## Labels of a region -/

theorem apart_mark (hfresh : Instr.mark label ∉ body) : Apart body [.mark label] := by
  intro other hbody hmark
  rw [List.mem_singleton, Instr.mark.injEq] at hmark
  exact hfresh (hmark ▸ hbody)

theorem apart_jump (code : List Instr) : Apart [.jump cond label] code := by
  intro other hjump
  simp at hjump

theorem wellLabelled_mark (label : Label) : WellLabelled [.mark label] := by
  constructor
  · exact List.nodup_singleton label
  · simp [Instr.target?]

theorem WellLabelled.append_mark (hlabels : WellLabelled body) (hfresh : Instr.mark label ∉ body) :
    WellLabelled (body ++ [.mark label]) :=
  hlabels.append (wellLabelled_mark label) (apart_mark hfresh)

theorem wellLabelled_region (hlabels : WellLabelled body) (hfresh : Instr.mark label ∉ body) :
    WellLabelled (region cond label body) := by
  have hrest := hlabels.append_mark hfresh
  constructor
  · exact hrest.distinct
  · intro i hi other htarget
    rcases List.mem_append.mp hi with hjump | hi
    · rw [List.mem_singleton] at hjump
      rw [hjump, Instr.target?, Option.some.injEq] at htarget
      rw [← htarget]
      simp [region]
    · exact List.mem_append_right _ (hrest.marked i hi other htarget)

theorem getElem?_region_mark :
    (region cond label body)[1 + body.length]? = some (.mark label) := by
  have hlast := getElem?_append_add body [Instr.mark label] 0
  rw [region, show (1 : Nat) = [Instr.jump cond label].length from rfl, getElem?_append_add]
  exact hlast

theorem length_region :
    (region cond label body).length = 1 + (body ++ [Instr.mark label]).length :=
  List.length_append

/-! ## Paths through a region -/

/-- Nothing but the jump leads from outside to the mark. -/
theorem goes_region_zero (hlabels : WellLabelled body) (hfresh : Instr.mark label ∉ body) {q : Nat}
    (h : Goes (region cond label body) 0 q) : q = 1 ∨ q = 1 + body.length := by
  rcases (goes_jump_iff rfl).mp h with hq | rfl
  · have hdistinct := (@wellLabelled_region cond label body hlabels hfresh).distinct
    exact .inr (position_eq_of_nodup_marks hdistinct hq getElem?_region_mark)
  · exact .inl rfl

/-- A path through a region is still at the jump, or has gone on through the body and the
mark, or has been led to the mark. -/
theorem Reaches.of_region (hlabels : WellLabelled body) (hfresh : Instr.mark label ∉ body)
    (hjump : act (.jump cond label) s = some t)
    (h : Reaches act (region cond label body) s p x) :
    (p = 0 ∧ x = s) ∨ ∃ r, p = 1 + r ∧ (Reaches act (body ++ [.mark label]) t r x ∨
      ∃ j, r = body.length + j ∧ Reaches act [.mark label] t j x) := by
  have hrest := hlabels.append_mark hfresh
  induction h with
  | start => exact .inl ⟨rfl, rfl⟩
  | step _ hi hact hgoes ih =>
      rcases ih with ⟨rfl, rfl⟩ | ⟨r, rfl, hpath⟩
      · obtain rfl : Instr.jump cond label = _ := Option.some.inj hi
        obtain rfl := Option.some.inj (hjump.symm.trans hact)
        rcases goes_region_zero hlabels hfresh hgoes with rfl | rfl
        · exact .inr ⟨0, rfl, .inl .start⟩
        · exact .inr ⟨body.length, rfl, .inr ⟨0, rfl, .start⟩⟩
      · obtain ⟨r', rfl, hin⟩ := hgoes.of_append_right hrest (apart_jump _)
        rw [show (1 : Nat) = [Instr.jump cond label].length from rfl, region,
          getElem?_append_add] at hi
        refine .inr ⟨r', rfl, ?_⟩
        rcases hpath with hbody | ⟨j, rfl, hmark⟩
        · exact .inl (.step hbody hi hact hin)
        · obtain ⟨j', rfl, hlast⟩ :=
            hin.of_append_right (wellLabelled_mark label) (apart_mark hfresh)
          rw [getElem?_append_add] at hi
          exact .inr ⟨j', rfl, .step hmark hi hact hlast⟩

theorem carries_mark (hmark : act (.mark label) t = some t) : Carries act [.mark label] t t := by
  have hannotates : Annotates act (fun _ => t) [.mark label] [t, t] := by
    simp [Annotates, hmark, Instr.target?]
  exact .of_annotates hannotates rfl (.single (.falls rfl rfl))

/-- At a position in a region a path is still at the jump, or has been led to the mark, or
has gone on behind the jump. -/
theorem Reaches.of_region_lt (hlabels : WellLabelled body) (hfresh : Instr.mark label ∉ body)
    (hjump : act (.jump cond label) s = some t) (hmark : act (.mark label) t = some t)
    (h : Reaches act (region cond label body) s p x)
    (hlt : p < (region cond label body).length) :
    (p = 0 ∧ x = s) ∨ (p = 1 + body.length ∧ x = t) ∨
      ∃ r, p = 1 + r ∧ Reaches act (body ++ [.mark label]) t r x := by
  rw [length_region, List.length_append, List.length_singleton] at hlt
  rcases h.of_region hlabels hfresh hjump with hstart | ⟨r, hp, hpath | ⟨j, rfl, hpath⟩⟩
  · exact .inl hstart
  · exact .inr (.inr ⟨r, hp, hpath⟩)
  · obtain rfl : j = 0 := by omega
    exact .inr (.inl ⟨hp, (carries_mark hmark).agree hpath .start⟩)

/-- Behind the jump a path through the body and the mark goes on. -/
theorem reaches_region (hjump : act (.jump cond label) s = some t)
    (h : Reaches act (body ++ [.mark label]) t p x) :
    Reaches act (region cond label body) s (1 + p) x := by
  have hpast : Reaches act [.jump cond label] s 1 t := .step .start rfl hjump (.falls rfl rfl)
  exact hpast.append_right h

/-- The jump leads to the mark. -/
theorem reaches_region_mark (hjump : act (.jump cond label) s = some t) :
    Reaches act (region cond label body) s (1 + body.length) t :=
  .step .start rfl hjump (.jumps rfl rfl getElem?_region_mark)

/-- No path through a region gets stuck. -/
theorem Reaches.progress_region (hlabels : WellLabelled body) (hfresh : Instr.mark label ∉ body)
    (hjump : act (.jump cond label) s = some t) (hbody : Carries act body t u)
    (hmark : act (.mark label) t = some t) (hmark' : act (.mark label) u = some u) {i : Instr}
    (h : Reaches act (region cond label body) s p x) (hi : (region cond label body)[p]? = some i) :
    (act i x).isSome := by
  have hthrough : Carries act (body ++ [.mark label]) t u :=
    hbody.append hlabels (wellLabelled_mark label) (apart_mark hfresh) (carries_mark hmark')
  rcases h.of_region hlabels hfresh hjump with ⟨rfl, rfl⟩ | ⟨r, rfl, hpath⟩
  · obtain rfl : Instr.jump cond label = i := Option.some.inj hi
    exact Option.isSome_of_eq_some hjump
  · rw [show (1 : Nat) = [Instr.jump cond label].length from rfl, region,
      getElem?_append_add] at hi
    rcases hpath with hpath | ⟨j, rfl, hpath⟩
    · exact hthrough.progress hpath hi
    · rw [getElem?_append_add] at hi
      exact (carries_mark hmark).progress hpath hi

/-- A region whose body leaves the state as it finds it does so too, behind the jump. -/
theorem carries_region (hlabels : WellLabelled body) (hfresh : Instr.mark label ∉ body)
    (hjump : act (.jump cond label) s = some t) (hbody : Carries act body t t)
    (hmark : act (.mark label) t = some t) : Carries act (region cond label body) s t := by
  have hthrough : Carries act (body ++ [.mark label]) t t :=
    hbody.append hlabels (wellLabelled_mark label) (apart_mark hfresh) (carries_mark hmark)
  -- the way by the jump joins that through the body
  have hcases : ∀ {p x}, Reaches act (region cond label body) s p x →
      (p = 0 ∧ x = s) ∨ ∃ r, p = 1 + r ∧ Reaches act (body ++ [.mark label]) t r x := by
    intro p x h
    rcases h.of_region hlabels hfresh hjump with hstart | ⟨r, rfl, hpath | ⟨j, rfl, hpath⟩⟩
    · exact .inl hstart
    · exact .inr ⟨r, rfl, hpath⟩
    · exact .inr ⟨_, rfl, hbody.ends.append_right hpath⟩
  constructor
  · intro p x i h hi
    exact h.progress_region hlabels hfresh hjump hbody hmark hmark hi
  · intro p x y hx hy
    rcases hcases hx with ⟨rfl, rfl⟩ | ⟨r, rfl, hpath⟩ <;>
      rcases hcases hy with ⟨hp, rfl⟩ | ⟨r', hp, hpath'⟩
    · rfl
    · omega
    · omega
    · obtain rfl : r = r' := by omega
      exact hthrough.agree hpath hpath'
  · rw [length_region]
    exact reaches_region hjump hthrough.ends

end Region

/-! ## The verdict on a region -/

section Verdict

variable {limit entry after final : Nat} {cond : Cond} {label : Label} {code body : List Instr}

/-- Where no path gets stuck and the end is reached, all that can be wrong is that two
heights do not agree. -/
theorem eq_mismatch_of_genuine (hlabels : WellLabelled code)
    (hprogress : ∀ {p x i}, Reaches (Instr.within limit) code entry p x → code[p]? = some i →
      (i.within limit x).isSome)
    (hends : Reaches (Instr.within limit) code entry code.length final) {d : Defect}
    (hd : d.Genuine limit code entry) :
    ∃ p expected actual, d = .heightMismatch p expected actual := by
  cases d with
  | heightMismatch p expected actual => exact ⟨p, expected, actual, rfl⟩
  | unknownLabel p label =>
      obtain ⟨⟨i, hi, htarget⟩, hmark⟩ := hd
      obtain ⟨q, hq⟩ :=
        List.mem_iff_getElem?.mp (hlabels.marked i (List.mem_of_getElem? hi) label htarget)
      exact absurd hq (hmark q)
  | duplicateLabel p label =>
      obtain ⟨hp, q, hlt, hq⟩ := hd
      exact absurd (position_eq_of_nodup_marks hlabels.distinct hq hp) hlt.ne
  | underflow p required actual =>
      obtain ⟨hreach, i, hi, rfl, hlt⟩ := hd
      obtain ⟨y, hy⟩ := Option.isSome_iff_exists.mp (hprogress hreach hi)
      exact absurd (Instr.within_eq_some_iff.mp hy).1 (Nat.not_le_of_lt hlt)
  | overflow p height most =>
      obtain ⟨-, hlt, i, before, hreach, hi, -, rfl⟩ := hd
      obtain ⟨y, hy⟩ := Option.isSome_iff_exists.mp (hprogress hreach hi)
      exact absurd (Instr.within_eq_some_iff.mp hy).2.1 (Nat.not_le_of_lt hlt)
  | noFallThrough => exact absurd (reaches_unchecked_of_within hends) (hd final)

theorem le_of_reaches_within {p height : Nat} (hentry : entry ≤ limit)
    (h : Reaches (Instr.within limit) code entry p height) : height ≤ limit := by
  cases h with
  | start => exact hentry
  | step _ _ hact _ =>
      obtain ⟨-, hle, rfl⟩ := Instr.within_eq_some_iff.mp hact
      exact hle

theorem within_mark (label : Label) {height : Nat} (h : height ≤ limit) :
    (Instr.mark label).within limit height = some height :=
  Instr.within_eq_some_iff.mpr ⟨Nat.zero_le _, h, rfl⟩

variable (cond label body) in
/-- The jump is a block of its own. -/
theorem exists_first_block_region :
    ∃ b, (blocksOf (region cond label body))[0]? = some b ∧ b.start = 0 ∧ b.stop = 1 := by
  have hnonempty : region cond label body ≠ [] := List.cons_ne_nil _ _
  obtain ⟨b, hb, hstart⟩ := exists_first_block hnonempty
  have hsecond : 1 ∈ starts (region cond label body) := by
    refine succ_mem_starts (p := 0) rfl rfl ?_
    rw [length_region, List.length_append, List.length_singleton]
    omega
  have hlt := start_lt_stop hb
  refine ⟨b, hb, hstart, ?_⟩
  by_contra hne
  exact not_mem_starts_of_inside hb (by omega) (by omega) hsecond

/-- A mismatch at the mark is one with the height after the jump: the jump settles the mark
before anything that comes later. -/
theorem eq_of_verify_mismatch_mark {expected actual : Nat}
    (hjump : (Instr.jump cond label).within limit entry = some after)
    (hverify : verify limit (region cond label body) entry =
      .error (.heightMismatch (1 + body.length) expected actual)) : expected = after := by
  obtain ⟨-, hfirst⟩ := settled_of_verify_mismatch hverify
  obtain ⟨b, hb, hstart, hstop⟩ := exists_first_block_region cond label body
  refine hfirst b after hb ?_ ?_ (by omega)
  · rw [Block.body, hstart, hstop]
    show ((Instr.jump cond label).within limit entry).bind _ = _
    rw [hjump]
    rfl
  · rw [hstop]
    exact .jumps rfl rfl getElem?_region_mark

/-- A region whose body leaves another height than it finds is rejected at the mark, where
the height after the jump is expected. -/
theorem verify_region_of_ne (hlabels : WellLabelled body) (hfresh : Instr.mark label ∉ body)
    (hjump : (Instr.jump cond label).within limit entry = some after)
    (hbody : Carries (Instr.within limit) body after final) (hne : after ≠ final) :
    verify limit (region cond label body) entry =
      .error (.heightMismatch (1 + body.length) after final) := by
  have hafter : after ≤ limit := by
    obtain ⟨-, hle, rfl⟩ := Instr.within_eq_some_iff.mp hjump
    exact hle
  have hmark := within_mark label hafter
  have hmark' := within_mark label (le_of_reaches_within hafter hbody.ends)
  have hthrough : Carries (Instr.within limit) (body ++ [.mark label]) after final :=
    hbody.append hlabels (wellLabelled_mark label) (apart_mark hfresh) (carries_mark hmark')
  have hseam : Reaches (Instr.within limit) (body ++ [.mark label]) after body.length final :=
    hbody.ends.append_left
  cases hverify : verify limit (region cond label body) entry with
  | ok height =>
      have hcarries := (carries_of_verify_ok hverify).2
      exact absurd (hcarries.agree (reaches_region_mark hjump) (reaches_region hjump hseam)) hne
  | error d =>
      have hgenuine := genuine_of_verify_error hverify
      have hends : Reaches (Instr.within limit) (region cond label body) entry
          (region cond label body).length final := by
        rw [length_region]
        exact reaches_region hjump hthrough.ends
      obtain ⟨p, expected, actual, rfl⟩ := eq_mismatch_of_genuine
        (wellLabelled_region hlabels hfresh)
        (fun hreach hi => hreach.progress_region hlabels hfresh hjump hbody hmark hmark' hi)
        hends hgenuine
      obtain ⟨hexpected, hactual, hdiffer⟩ := hgenuine
      obtain ⟨hlt, -⟩ := settled_of_verify_mismatch hverify
      have hsettled : p = 1 + body.length → expected = after := by
        rintro rfl
        exact eq_of_verify_mismatch_mark hjump hverify
      -- two heights at one position come from two ways, and only the mark has two
      rcases hactual.of_region_lt hlabels hfresh hjump hmark hlt with
        ⟨hp, rfl⟩ | ⟨hp, rfl⟩ | ⟨r, hp, hpath⟩
      · rcases hexpected.of_region_lt hlabels hfresh hjump hmark hlt with
          ⟨-, rfl⟩ | ⟨hp', -⟩ | ⟨r', hp', -⟩
        · exact absurd rfl hdiffer
        · omega
        · omega
      · exact absurd (hsettled hp) hdiffer
      · rcases hexpected.of_region_lt hlabels hfresh hjump hmark hlt with
          ⟨hp', -⟩ | ⟨hp', rfl⟩ | ⟨r', hp', hpath'⟩
        · omega
        · obtain rfl : r = body.length := by omega
          rw [hp, hthrough.agree hpath hseam]
        · obtain rfl : r = r' := by omega
          exact absurd (hthrough.agree hpath' hpath) hdiffer

end Verdict

end Flow

/-! ## Regions of a run -/

variable {c : Context} {s s' : State}

theorem Trace.slots_le_peak (c : Context) (s : State) (steps : List Step) :
    s.slots ≤ peak c s steps := by
  cases steps with
  | nil => exact Nat.le_refl _
  | cons step rest =>
      unfold peak
      split
      · exact Nat.le_max_left _ _
      · exact Nat.le_refl _

/-- A run follows the model in widths, if what it stores has the width of its variable. -/
theorem Trace.exists_follows_of_perform {number : Nat} {steps : List Step}
    (h : perform c number s steps = (.ok (), s'))
    (hemits : ∀ step ∈ steps, step.isModelOnly = false)
    (hstores : ∀ x, .storeVar x ∈ steps → x.holder = false →
      (c.registry.canonical x.type).width = x.type.width) :
    ∃ code, Follows View.widths (peak c s steps) s s' code := by
  have halike : ∀ step ∈ steps, step.StoresAlike View.widths c.registry := by
    intro step hstep
    cases step with
    | storeVar x =>
        intro hholder
        have hwidth := hstores x hstep hholder
        rwa [← View.width_carrier, ← View.width_carrier] at hwidth
    | _ => trivial
  exact follows_of_perform hemits halike h

/-- The code of such a run moves the height as the model. -/
theorem Follows.carries_within {most limit : Nat} {code : List Instr}
    (h : Follows View.widths most s s' code) (hlimit : most + 4 ≤ limit) :
    Carries (Instr.within limit) code s.slots s'.slots := by
  have hslots := carries_slots (h.carries limit hlimit)
  rwa [View.slots_stack, View.slots_stack] at hslots

/-- The code of a run moves the height as the model, and marks only labels that were
taken in the run. -/
theorem Trace.exists_code_of_perform {number : Nat} {steps : List Step}
    (h : perform c number s steps = (.ok (), s'))
    (hemits : ∀ step ∈ steps, step.isModelOnly = false)
    (hstores : ∀ x, .storeVar x ∈ steps → x.holder = false →
      (c.registry.canonical x.type).width = x.type.width) :
    ∃ code, s'.code.toList = s.code.toList ++ code ∧ WellLabelled code ∧
      (∀ label, .mark label ∈ code → s.labels ≤ label.id) ∧
      ∀ limit, peak c s steps + 4 ≤ limit → Carries (Instr.within limit) code s.slots s'.slots := by
  obtain ⟨code, hfollows⟩ := exists_follows_of_perform h hemits hstores
  exact ⟨code, hfollows.emitted, hfollows.labelled, fun label hmark => (hfollows.fresh label hmark).1,
    fun _ hlimit => hfollows.carries_within hlimit⟩

/-- A conditional jump over some operations, up to the mark of its label, is accepted with
the height of the model if they leave the height that they find, and is rejected at the
mark if they do not. -/
theorem verify_region {t : ValueType} {rest : List ValueType} (hentries : s.entries = t :: rest)
    (hwidth : t.width = .one) (cond : Cond) :
    ∃ label opened, (Op.jump cond).run c s = .ok label opened ∧
      ∀ number steps s', Trace.perform c number opened steps = (.ok (), s') →
        (∀ step ∈ steps, step.isModelOnly = false) →
        (∀ x, .storeVar x ∈ steps → x.holder = false →
          (c.registry.canonical x.type).width = x.type.width) →
        ∃ body closed, (Op.emit (.mark label)).run c s' = .ok () closed ∧
          closed.code.toList = s.code.toList ++ region cond label body ∧
          ∀ limit, Trace.peak c opened steps + 4 ≤ limit →
            (s'.slots = opened.slots →
              verify limit (region cond label body) s.slots = .ok s'.slots) ∧
            (s'.slots ≠ opened.slots →
              verify limit (region cond label body) s.slots =
                .error (.heightMismatch (1 + body.length) opened.slots s'.slots)) := by
  have hrun := Op.run_jump c s cond
  rw [hentries] at hrun
  refine ⟨_, _, hrun, fun number steps s' hsteps hemits hstores => ?_⟩
  generalize hopened : ((((s.allotting 1).appending c [.jump cond ⟨s.labels⟩]).noting
    [.removed 1 rest.length]).withEntries rest) = opened at hsteps ⊢
  have hcode : opened.code.toList = s.code.toList ++ [.jump cond ⟨s.labels⟩] := by
    rw [← hopened]
    simp
  have hlabels : opened.labels = s.labels + 1 := by
    rw [← hopened]
    rfl
  have hslots : s.slots = 1 + opened.slots := by
    rw [← hopened, State.slots, hentries, ValueType.totalSlots, ValueType.slots, hwidth]
    rfl
  obtain ⟨body, hbody, hlabelled, htaken, hcarries⟩ :=
    Trace.exists_code_of_perform hsteps hemits hstores
  -- the label of the jump was taken before those of the body
  have hfresh : Instr.mark ⟨s.labels⟩ ∉ body := by
    intro hmark
    have hle : opened.labels ≤ s.labels := htaken _ hmark
    omega
  refine ⟨body, _, Op.run_emit c s' _, ?_, fun limit hlimit => ?_⟩
  · rw [State.toList_code_appending, hbody, hcode]
    simp [region]
  have hle := Trace.slots_le_peak c opened steps
  have hjump : (Instr.jump cond ⟨s.labels⟩).within limit s.slots = some opened.slots := by
    refine Instr.within_eq_some_iff.mpr ?_
    simp only [Instr.heightAfter, Instr.effect]
    omega
  have hmoves := hcarries limit hlimit
  constructor
  · intro hsame
    rw [hsame] at hmoves ⊢
    exact verify_eq_ok_iff.mpr ⟨wellLabelled_region hlabelled hfresh,
      carries_region hlabelled hfresh hjump hmoves (within_mark _ (by omega))⟩
  · intro hother
    exact verify_region_of_ne hlabelled hfresh hjump hmoves (Ne.symm hother)

/-- A condition above a `long`. -/
def conditionState : State := { State.initial with entries := [.boolean, .primitive .long] }

/-- Operations that go below the level of the jump, by way of a test with labels of its
own, and build up again. -/
def rebuildingSteps : List Step :=
  [.castToBool 0 false, .pop, .line 4, .constant (.long 5) (.primitive .long)]

/-- The same jump over operations that rebuild what they take, and over one that leaves a
value more. -/
theorem verify_region_rebuilt :
    ∃ opened, (Op.jump .isZero).run bareContext conditionState = .ok ⟨0⟩ opened ∧
      (∃ s', Trace.perform bareContext 1 opened rebuildingSteps = (.ok (), s') ∧ s'.labels = 3 ∧
        verify 6 (s'.code.toList ++ [.mark ⟨0⟩]) 3 = .ok 2) ∧
      ∃ s', Trace.perform bareContext 1 opened [.pushBool true] = (.ok (), s') ∧
        verify 7 (s'.code.toList ++ [.mark ⟨0⟩]) 3 = .error (.heightMismatch 2 2 3) := by
  let opened : State :=
    ⟨[.primitive .long], #[.jump .isZero ⟨0⟩], 1, 0, #[.removed 1 1]⟩
  have hopened : (Op.jump .isZero).run bareContext conditionState = .ok ⟨0⟩ opened := rfl
  obtain ⟨label, opened', hjump, hregion⟩ :=
    verify_region (c := bareContext) (s := conditionState) rfl rfl .isZero
  rw [hopened, EStateM.Result.ok.injEq] at hjump
  obtain ⟨rfl, rfl⟩ := hjump
  refine ⟨opened, hopened, ?_, ?_⟩
  · let s' := (Trace.perform bareContext 1 opened rebuildingSteps).2
    have hrun : Trace.perform bareContext 1 opened rebuildingSteps = (.ok (), s') := rfl
    obtain ⟨body, closed, hclosed, hcode, hverdict⟩ :=
      hregion 1 rebuildingSteps s' hrun (by decide) (by simp [rebuildingSteps])
    rw [Op.run_emit, EStateM.Result.ok.injEq] at hclosed
    obtain ⟨-, rfl⟩ := hclosed
    rw [State.toList_code_appending] at hcode
    refine ⟨s', hrun, rfl, ?_⟩
    rw [hcode]
    exact (hverdict 6 (by decide)).1 rfl
  · let s' := (Trace.perform bareContext 1 opened [.pushBool true]).2
    have hrun : Trace.perform bareContext 1 opened [.pushBool true] = (.ok (), s') := rfl
    obtain ⟨body, closed, hclosed, hcode, hverdict⟩ :=
      hregion 1 [.pushBool true] s' hrun (by decide) (by simp)
    rw [Op.run_emit, EStateM.Result.ok.injEq] at hclosed
    obtain ⟨-, rfl⟩ := hclosed
    rw [State.toList_code_appending] at hcode
    have hlength : body.length = 1 := by
      have hlengths := congrArg List.length hcode
      rw [List.length_append, List.length_append, length_region, List.length_append] at hlengths
      have htwo : s'.code.toList.length = 2 := rfl
      have hnone : conditionState.code.toList.length = 0 := rfl
      rw [htwo, hnone, List.length_singleton] at hlengths
      omega
    refine ⟨s', hrun, ?_⟩
    have hrejected := (hverdict 7 (by decide)).2 (by decide)
    rw [hlength] at hrejected
    rw [hcode]
    exact hrejected

end Lockstep
