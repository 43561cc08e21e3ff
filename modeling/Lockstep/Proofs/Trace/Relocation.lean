import Mathlib.Data.List.Nodup
import Lockstep.Proofs.Flow.Invariance
import Lockstep.Proofs.Machine.Runs
import Lockstep.Proofs.Trace.Emission

/-!
# Code that can be moved

A run can start from code that is there already and with labels that were handed out
before.  Neither matters: two runs of the same steps from the same model, and on the same
line, make the same decisions, and what the one appends is what the other appends with
every label shifted by the difference of the labels at the start
(`Trace.perform_relocates`).

The code of a run comes in fragments, one from each step (`Trace.fragments`).  All but the
tests of truth are straight; a test marks each of its labels once and jumps to no others.
The labels that a step takes come after those of the steps before it, so no label is named
by two fragments.
-/

namespace Lockstep

open Lockstep.Flow

/-! ## Other labels -/

/-- The label at some distance from a label. -/
def Label.shift (distance : Int) (label : Label) : Label :=
  ⟨((label.id : Int) + distance).toNat⟩

@[simp]
theorem Label.shift_mk_add (n m k : Nat) :
    Label.shift ((m : Int) - n) ⟨n + k⟩ = ⟨m + k⟩ := by
  show Label.mk _ = _
  congr 1
  dsimp only
  omega

@[simp]
theorem Label.shift_mk (n m : Nat) : Label.shift ((m : Int) - n) ⟨n⟩ = ⟨m⟩ := by
  show Label.mk _ = _
  congr 1
  dsimp only
  omega

namespace Instr

/-- An instruction marks a label, or may go to it. -/
def Names (i : Instr) (label : Label) : Prop := i.target? = some label ∨ i.marked? = some label

theorem relabel_of_straight {i : Instr} (f : Label → Label)
    (h : i.target? = none ∧ i.marked? = none) : i.relabel f = i := by
  cases i with
  | jump cond label => cases h.1
  | goto label => cases h.1
  | mark label => cases h.2
  | _ => rfl

end Instr

namespace Flow

theorem Straight.map_relabel {code : List Instr} (h : Straight code) (f : Label → Label) :
    code.map (Instr.relabel f) = code := by
  rw [List.map_congr_left fun i hi => Instr.relabel_of_straight f (h i hi), List.map_id']

theorem Straight.flatMap {α : Type} {f : α → List Instr} (h : ∀ a, Straight (f a)) (l : List α) :
    Straight (l.flatMap f) := by
  intro i hi
  obtain ⟨a, -, hi⟩ := List.mem_flatMap.mp hi
  exact h a i hi

/-- A label that is named in code where labels are in order is marked there. -/
theorem WellLabelled.mark_mem {code : List Instr} (h : WellLabelled code) {i : Instr}
    {label : Label} (hi : i ∈ code) (hnames : i.Names label) : Instr.mark label ∈ code := by
  rcases hnames with htarget | hmarked
  · exact h.marked i hi label htarget
  · exact mem_marks_iff.mp (List.mem_filterMap.mpr ⟨i, hi, hmarked⟩)

end Flow

/-! ## The code of a step -/

theorem Prim.truthCode_shift (kind : Prim) (n m : Nat) :
    (kind.truthCode n).map (Instr.relabel (Label.shift ((m : Int) - n))) = kind.truthCode m := by
  cases kind <;>
    simp [truthCode, floatingTruth, integralTruth, Instr.relabel]

theorem ValueType.truthCode_shift (t : ValueType) (s : Support) (n m : Nat) :
    (t.truthCode s n).map (Instr.relabel (Label.shift ((m : Int) - n))) = t.truthCode s m := by
  cases t with
  | primitive kind => exact kind.truthCode_shift n m
  | _ => rfl

theorem Variable.straight_storing (x : Variable) (s : Support) (stored : ValueType) :
    Straight (x.storing s stored) := by
  unfold storing
  split
  · have hboxing := (moves_boxing (v := View.widths) [] stored).straight
    exact hboxing.append (by simp [Straight, Instr.target?, Instr.marked?])
  · simp [Straight, Instr.target?, Instr.marked?]

namespace Step

variable (step : Step) (c : Context) (ts : List ValueType)

/-- Only a test of truth can have branches. -/
theorem straight_code (first : Nat) (h : ∀ mark ifEmpty, step ≠ castToBool mark ifEmpty) :
    Straight (step.code c ts first) := by
  have hconversion : ∀ source target explicit,
      Straight (c.conversionCode source target explicit) := fun source target explicit =>
    (moves_conversionCode (v := View.widths) [] source target explicit).straight
  have hnone : Straight [] := fun i hi => absurd hi List.not_mem_nil
  cases step with
  | castToBool mark ifEmpty => exact absurd rfl (h mark ifEmpty)
  | push t => exact hnone
  | remove amount => exact hnone
  | replace t n => exact hnone
  | line n => exact hnone
  | pop => exact (moves_discards (v := View.widths) [] _).straight
  | popDownTo mark => exact (moves_discards (v := View.widths) [] _).straight
  | dup =>
      intro i hi
      obtain ⟨t, -, rfl⟩ := List.mem_map.mp hi
      exact (moves_duplicate (v := View.widths) [] t).straight _ (List.mem_singleton_self _)
  | swap =>
      match ts with
      | [] => exact hnone
      | [_] => exact hnone
      | top :: below :: _ => exact (moves_exchange (v := View.widths) [] top below).straight
  | box => exact .flatMap (fun t => (moves_boxing (v := View.widths) [] t).straight) _
  | cast t => exact .flatMap (fun source => hconversion source _ _) _
  | coerce t => exact .flatMap (fun source => hconversion source _ _) _
  | constant value t =>
      rw [code]
      split
      · next hload => exact (moves_load (v := View.widths) [] hload).straight
      · exact hnone
  | loadVar x cellItself => exact (moves_loading (v := View.widths) [] x _ cellItself).straight
  | storeVar x =>
      exact .flatMap (fun source => (hconversion source _ _).append (x.straight_storing _ _)) _
  | pushBool value =>
      show Straight [_]
      simp [Straight, Instr.target?, Instr.marked?]

/-- The labels of a step are those that were free at the time. -/
theorem code_shift (n m : Nat) :
    (step.code c ts n).map (Instr.relabel (Label.shift ((m : Int) - n))) = step.code c ts m := by
  cases step with
  | castToBool mark ifEmpty =>
      rw [code, code]
      cases condition? ts mark.toNat with
      | none => rfl
      | some t => exact t.truthCode_shift _ n m
  | _ => exact (straight_code _ c ts n fun _ _ h => by cases h).map_relabel _

/-- A step marks exactly the labels that it takes and names. -/
theorem wellLabelled_code (first : Nat) :
    WellLabelled (step.code c ts first) ∧
      ∀ label, .mark label ∈ step.code c ts first →
        first ≤ label.id ∧ label.id < first + step.labels ts := by
  have hstraight : Straight (step.code c ts first) →
      WellLabelled (step.code c ts first) ∧
        ∀ label, .mark label ∈ step.code c ts first →
          first ≤ label.id ∧ label.id < first + step.labels ts := fun h =>
    ⟨h.wellLabelled, fun label hmark => absurd hmark (h.not_mark_mem label)⟩
  cases step with
  | castToBool mark ifEmpty =>
      cases hcondition : condition? ts mark.toNat with
      | none => exact hstraight (by simp [code, hcondition, Straight, Instr.target?, Instr.marked?])
      | some t =>
          simp only [code, labels, hcondition, Option.map_some, Option.getD_some]
          exact t.wellLabelled_truthCode _ first
  | _ => exact hstraight (straight_code _ c ts first fun _ _ h => by cases h)

end Step

/-! ## The code of a run -/

/-- What one operation appends, and the labels that are handed out to it. -/
structure Fragment where
  first : Nat
  next : Nat
  code : List Instr

namespace Fragment

def Takes (f : Fragment) (label : Label) : Prop := f.first ≤ label.id ∧ label.id < f.next

def Names (f : Fragment) (label : Label) : Prop := ∃ i ∈ f.code, i.Names label

/-- What is between two states. -/
def between (s after : State) : Fragment :=
  ⟨s.labels, after.labels, after.code.toList.drop s.code.size⟩

/-- A fragment names labels of its own, and marks them once. -/
structure Closed (f : Fragment) : Prop where
  labelled : WellLabelled f.code
  takes : ∀ label, .mark label ∈ f.code → f.Takes label

theorem Closed.takes_of_names {f : Fragment} (h : f.Closed) {label : Label}
    (hnames : f.Names label) : f.Takes label := by
  obtain ⟨i, hi, hnames⟩ := hnames
  exact h.takes label (h.labelled.mark_mem hi hnames)

end Fragment

namespace Trace

/-- What the steps of a run append, one after the other, up to the one that fails. -/
def fragments (c : Context) (s : State) : List Step → List Fragment
  | [] => []
  | step :: rest =>
    match step.perform.run c s with
    | .ok _ after => .between s after :: fragments c after rest
    | .error _ after => [.between s after]

variable {c : Context} {number : Nat} {s after : State} {step : Step} {steps : List Step}

theorem fragments_cons (h : step.perform.run c s = .ok () after) (rest : List Step) :
    fragments c s (step :: rest) = .between s after :: fragments c after rest := by
  rw [fragments, h]

theorem fragments_cons_of_refusal {fault : Fault}
    (h : step.call.refusal s.entries = some fault) (rest : List Step) :
    fragments c s (step :: rest) = [.between s s] := by
  rw [fragments, Step.run_of_refusal h]

theorem between_self (s : State) : Fragment.between s s = ⟨s.labels, s.labels, []⟩ := by
  simp [Fragment.between]

/-- What is between the states around a step is what it appends and takes. -/
theorem between_of_perform (h : step.perform.run c s = .ok () after) :
    Fragment.between s after =
      ⟨s.labels, s.labels + step.labels s.entries, step.code c s.entries s.labels⟩ := by
  have hemits := Step.emits_of_perform h
  unfold Fragment.between
  rw [hemits.labels, hemits.code, ← Array.length_toList, List.drop_left]

theorem closed_between (h : step.perform.run c s = .ok () after) :
    (Fragment.between s after).Closed := by
  have hcode := step.wellLabelled_code c s.entries s.labels
  rw [between_of_perform h]
  exact ⟨hcode.1, hcode.2⟩

/-- A run appends the code of its fragments. -/
theorem code_perform (c : Context) (number : Nat) (s : State) (steps : List Step) :
    (perform c number s steps).2.code.toList =
      s.code.toList ++ (fragments c s steps).flatMap Fragment.code := by
  induction steps generalizing number s with
  | nil => simp [perform, fragments]
  | cons step rest ih =>
      rcases perform_cons_cases c number s step rest with
        ⟨fault, hrefusal, hstop⟩ | ⟨after, hrun, hgoes⟩
      · rw [hstop, fragments_cons_of_refusal hrefusal, between_self]
        simp
      · rw [hgoes, ih, fragments_cons hrun, List.flatMap_cons, between_of_perform hrun,
          (Step.emits_of_perform hrun).code, List.append_assoc]

theorem labels_le_perform (c : Context) (number : Nat) (s : State) (steps : List Step) :
    s.labels ≤ (perform c number s steps).2.labels := by
  induction steps generalizing number s with
  | nil => exact Nat.le_refl _
  | cons step rest ih =>
      rcases perform_cons_cases c number s step rest with
        ⟨fault, -, hstop⟩ | ⟨after, hrun, hgoes⟩
      · rw [hstop]
      · have hlabels := (Step.emits_of_perform hrun).labels
        have hrest := ih (number + 1) after
        rw [hgoes]
        omega

/-- Each fragment names labels of its own, and they are handed out in the run. -/
theorem closed_of_mem_fragments (number : Nat) {f : Fragment} (hf : f ∈ fragments c s steps) :
    f.Closed ∧ s.labels ≤ f.first ∧ f.next ≤ (perform c number s steps).2.labels := by
  induction steps generalizing number s with
  | nil => cases hf
  | cons step rest ih =>
      rcases perform_cons_cases c number s step rest with
        ⟨fault, hrefusal, hstop⟩ | ⟨after, hrun, hgoes⟩
      · rw [fragments_cons_of_refusal hrefusal, between_self, List.mem_singleton] at hf
        rw [hf, hstop]
        exact ⟨⟨.nil, fun label hmark => absurd hmark List.not_mem_nil⟩, Nat.le_refl _,
          Nat.le_refl _⟩
      · rw [fragments_cons hrun] at hf
        rw [hgoes]
        rcases List.mem_cons.mp hf with rfl | hf
        · exact ⟨closed_between hrun, Nat.le_refl _, labels_le_perform c _ after rest⟩
        · obtain ⟨hclosed, hfirst, hnext⟩ := ih (number + 1) hf
          have hlabels := (Step.emits_of_perform hrun).labels
          exact ⟨hclosed, by omega, hnext⟩

/-- The labels of a step come after those of the steps before it. -/
theorem pairwise_fragments (c : Context) (s : State) (steps : List Step) :
    (fragments c s steps).Pairwise fun f g => f.next ≤ g.first := by
  induction steps generalizing s with
  | nil => exact .nil
  | cons step rest ih =>
      rcases perform_cons_cases c 1 s step rest with
        ⟨fault, hrefusal, -⟩ | ⟨after, hrun, -⟩
      · rw [fragments_cons_of_refusal hrefusal]
        exact List.pairwise_singleton _ _
      · rw [fragments_cons hrun]
        refine .cons (fun g hg => ?_) (ih after)
        exact (closed_of_mem_fragments 1 hg).2.1

/-- No two steps take one label. -/
theorem eq_of_takes {j k : Nat} {f g : Fragment} {label : Label}
    (hf : (fragments c s steps)[j]? = some f) (hg : (fragments c s steps)[k]? = some g)
    (htakes : f.Takes label) (htakes' : g.Takes label) : j = k := by
  obtain ⟨hj, rfl⟩ := List.getElem?_eq_some_iff.mp hf
  obtain ⟨hk, rfl⟩ := List.getElem?_eq_some_iff.mp hg
  have hpairwise := List.pairwise_iff_getElem.mp (pairwise_fragments c s steps)
  have hapart : ∀ {f g : Fragment}, f.next ≤ g.first → f.Takes label → ¬ g.Takes label := by
    intro f g hle htaken htaken'
    unfold Fragment.Takes at htaken htaken'
    omega
  rcases Nat.lt_trichotomy j k with hlt | heq | hgt
  · exact absurd htakes' (hapart (hpairwise j k hj hk hlt) htakes)
  · exact heq
  · exact absurd htakes (hapart (hpairwise k j hk hj hgt) htakes')

/-- No label is marked twice in a run. -/
theorem nodup_marks (c : Context) (s : State) (steps : List Step) :
    (((fragments c s steps).flatMap Fragment.code).filterMap Instr.marked?).Nodup := by
  rw [List.filterMap_flatMap, List.nodup_flatMap]
  constructor
  · intro f hf
    exact (closed_of_mem_fragments 1 hf).1.labelled.distinct
  · refine (pairwise_fragments c s steps).imp_of_mem fun {f g} hf hg hle label hmark hmark' => ?_
    have htakes := (closed_of_mem_fragments 1 hf).1.takes label (mem_marks_iff.mp hmark)
    have htakes' := (closed_of_mem_fragments 1 hg).1.takes label (mem_marks_iff.mp hmark')
    unfold Fragment.Takes at htakes htakes'
    omega

/-! ## Two runs -/

/-- A step that one state lets happen happens in every state with the same model on the
same line, and keeps the two alike. -/
theorem exists_perform_of_alike {s₁ s₂ after₁ : State} (hentries : s₁.entries = s₂.entries)
    (hline : s₁.line = s₂.line) (hrun₁ : step.perform.run c s₁ = .ok () after₁) :
    ∃ after₂, step.perform.run c s₂ = .ok () after₂ ∧ after₁.entries = after₂.entries ∧
      after₁.line = after₂.line ∧ after₂.labels + s₁.labels = after₁.labels + s₂.labels := by
  have hrefusal : step.call.refusal s₂.entries = none :=
    hentries ▸ Step.refusal_of_perform hrun₁
  obtain ⟨after₂, hrun₂, -⟩ := Call.exists_run_of_refusal c s₂ hrefusal
  rw [Step.perform_call] at hrun₂
  have hemits₁ := Step.emits_of_perform hrun₁
  have hemits₂ := Step.emits_of_perform hrun₂
  refine ⟨after₂, hrun₂, ?_, ?_, ?_⟩
  · rw [Step.entries_of_perform hrun₁, Step.entries_of_perform hrun₂, hentries]
  · rw [hemits₁.line, hemits₂.line, hline]
  · rw [hemits₁.labels, hemits₂.labels, hentries]
    omega

/-- Runs from the same model on the same line stop alike, leave the same model, append the
same code up to the labels, and take as many labels. -/
theorem perform_shift (c : Context) (number : Nat) {s₁ s₂ : State}
    (hentries : s₁.entries = s₂.entries) (hline : s₁.line = s₂.line) (steps : List Step) :
    (perform c number s₁ steps).1 = (perform c number s₂ steps).1 ∧
      (perform c number s₁ steps).2.entries = (perform c number s₂ steps).2.entries ∧
      (fragments c s₂ steps).flatMap Fragment.code =
        ((fragments c s₁ steps).flatMap Fragment.code).map
          (Instr.relabel (Label.shift ((s₂.labels : Int) - s₁.labels))) ∧
      (perform c number s₂ steps).2.labels + s₁.labels =
        (perform c number s₁ steps).2.labels + s₂.labels := by
  induction steps generalizing number s₁ s₂ with
  | nil => exact ⟨rfl, hentries, rfl, Nat.add_comm _ _⟩
  | cons step rest ih =>
      rcases perform_cons_cases c number s₁ step rest with
        ⟨fault, hrefusal₁, hstop₁⟩ | ⟨after₁, hrun₁, hgoes₁⟩
      · have hrefusal₂ : step.call.refusal s₂.entries = some fault := hentries ▸ hrefusal₁
        have hfailure : s₁.failure c fault = s₂.failure c fault := by
          rw [State.failure, State.failure, hline]
        rw [hstop₁, perform_cons_of_refusal hrefusal₂, fragments_cons_of_refusal hrefusal₁,
          fragments_cons_of_refusal hrefusal₂, between_self, between_self, hfailure]
        exact ⟨rfl, hentries, rfl, Nat.add_comm _ _⟩
      · obtain ⟨after₂, hrun₂, hentries', hline', hlabels⟩ :=
          exists_perform_of_alike hentries hline hrun₁
        -- the step shifts the labels of both runs by as much
        have hdistance : (after₂.labels : Int) - after₁.labels = s₂.labels - s₁.labels := by
          omega
        obtain ⟨hresult, hleft, hcode, htaken⟩ := ih (number + 1) hentries' hline'
        rw [hdistance] at hcode
        rw [hgoes₁, perform_cons hrun₂, fragments_cons hrun₁, fragments_cons hrun₂,
          List.flatMap_cons, List.flatMap_cons, List.map_append, hcode,
          between_of_perform hrun₁, between_of_perform hrun₂, hentries, step.code_shift]
        exact ⟨hresult, hleft, rfl, by omega⟩

/-- Two runs of the same steps from the same model, on the same line, stop at the same step
with the same failure or both succeed, and leave the same model, whatever code is there
already and however many labels were handed out before.  Both only append, and the codes
that they append are equal once the labels of the one are shifted by the difference of the
labels at the start; they take the same number of labels.  Every label in the code is
handed out in the run, is marked once, and is named by no step but the one that took it. -/
theorem perform_relocates (c : Context) (number : Nat) {s₁ s₂ : State}
    (hentries : s₁.entries = s₂.entries) (hline : s₁.line = s₂.line) (steps : List Step) :
    (perform c number s₁ steps).1 = (perform c number s₂ steps).1 ∧
    (perform c number s₁ steps).2.entries = (perform c number s₂ steps).2.entries ∧
    ∃ code count,
      (perform c number s₁ steps).2.code.toList = s₁.code.toList ++ code ∧
      (perform c number s₂ steps).2.code.toList = s₂.code.toList ++
        code.map (Instr.relabel (Label.shift ((s₂.labels : Int) - s₁.labels))) ∧
      (perform c number s₁ steps).2.labels = s₁.labels + count ∧
      (perform c number s₂ steps).2.labels = s₂.labels + count ∧
      code = (fragments c s₁ steps).flatMap Fragment.code ∧
      (∀ label, (∃ i ∈ code, i.Names label) →
        s₁.labels ≤ label.id ∧ label.id < s₁.labels + count ∧
          (code.filterMap Instr.marked?).count label = 1) ∧
      ∀ (k : Nat) g label, (fragments c s₁ steps)[k]? = some g → g.Names label →
        g.Takes label ∧
          ∀ (j : Nat) f, (fragments c s₁ steps)[j]? = some f → f.Takes label → j = k := by
  obtain ⟨hresult, hleft, hcode, htaken⟩ := perform_shift c number hentries hline steps
  have hle := labels_le_perform c number s₁ steps
  refine ⟨hresult, hleft, (fragments c s₁ steps).flatMap Fragment.code,
    (perform c number s₁ steps).2.labels - s₁.labels, code_perform c number s₁ steps, ?_,
    by omega, by omega, rfl, ?_, ?_⟩
  · rw [code_perform c number s₂ steps, hcode]
  · rintro label ⟨i, hi, hnames⟩
    obtain ⟨f, hf, hi⟩ := List.mem_flatMap.mp hi
    obtain ⟨hclosed, hfirst, hnext⟩ := closed_of_mem_fragments number hf
    have htakes := hclosed.takes_of_names ⟨i, hi, hnames⟩
    have hmark : .mark label ∈ (fragments c s₁ steps).flatMap Fragment.code :=
      List.mem_flatMap.mpr ⟨f, hf, hclosed.labelled.mark_mem hi hnames⟩
    refine ⟨Nat.le_trans hfirst htakes.1, ?_, ?_⟩
    · have hlt := htakes.2
      omega
    · exact List.count_eq_one_of_mem (nodup_marks c s₁ steps) (mem_marks_iff.mpr hmark)
  · intro k g label hg hnames
    have hclosed := (closed_of_mem_fragments 1 (List.mem_of_getElem? hg)).1
    have htakes := hclosed.takes_of_names hnames
    exact ⟨htakes, fun j f hf hftakes => eq_of_takes hf hg hftakes htakes⟩

/-- Two tests of truth. -/
def testSteps : List Step :=
  [.constant (.int 7) (.primitive .int), .castToBool 0 false,
   .constant (.long 5) (.primitive .long), .castToBool 1 false]

/-- A state with the empty model, some code, and labels that were handed out. -/
def laterState : State := ⟨[], #[.nullConst, .pop], 7, 0, #[]⟩

/-- The tests mark four labels, in another order than they take them, from zero on or
from seven on. -/
theorem perform_relocates_tests :
    ∃ code : List Instr,
      (perform bareContext 1 .initial testSteps).2.code.toList = code ∧
      (perform bareContext 1 laterState testSteps).2.code.toList =
        [.nullConst, .pop] ++ code.map (Instr.relabel (Label.shift 7)) ∧
      code.filterMap Instr.marked? = [⟨1⟩, ⟨0⟩, ⟨3⟩, ⟨2⟩] ∧
      (perform bareContext 1 laterState testSteps).2.labels = 11 := by
  have hentries : State.initial.entries = laterState.entries := rfl
  have hline : State.initial.line = laterState.line := rfl
  obtain ⟨-, -, code, count, hcode, hcode', hlabels, hlabels', -⟩ :=
    perform_relocates bareContext 1 hentries hline testSteps
  have hfour : (perform bareContext 1 .initial testSteps).2.labels = 4 := rfl
  have hmarks : (perform bareContext 1 .initial testSteps).2.code.toList.filterMap
      Instr.marked? = [⟨1⟩, ⟨0⟩, ⟨3⟩, ⟨2⟩] := rfl
  have hall : (perform bareContext 1 .initial testSteps).2.code.toList = code := hcode
  rw [hall] at hmarks
  rw [hfour] at hlabels
  refine ⟨code, hall, hcode', hmarks, ?_⟩
  have hstart : State.initial.labels = 0 := rfl
  have hlater : laterState.labels = 7 := rfl
  omega

end Trace

end Lockstep
