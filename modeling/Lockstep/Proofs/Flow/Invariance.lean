import Mathlib.Data.List.Basic
import Mathlib.Data.Option.Basic
import Lockstep.Proofs.Flow.Verdict

/-!
# What a verdict does not depend on

The check counts slots, and looks at labels only to find out where jumps go.  So it does
not matter how many slots lie below those that the code uses, as long as the limit is raised
by as many (`verify_add`), and it does not matter how the labels are called, as long as
different ones are called differently (`verify_map_relabel`).

For the slots below it is enough that the verdict is one about paths (`verify_eq_ok_iff`): a
machine that starts higher takes the same paths, and stays higher by the same number.

Paths do not tell which of several defects is reported, so for the labels the check itself
is followed.  Marks and jumps stay where they are and belong together as before, so the
blocks and their successors are the same (`ofCode_map_relabel`).  From then on no label is
looked at any more, and the exploration of both graphs is one and the same
(`explore_map_relabel`).
-/

namespace Lockstep

/-! ## Other labels -/

/-- An instruction with other labels. -/
def Instr.relabel (f : Label → Label) : Instr → Instr
  | .jump cond label => .jump cond (f label)
  | .goto label => .goto (f label)
  | .mark label => .mark (f label)
  | i => i

namespace Instr

variable (f : Label → Label) (i : Instr)

@[simp]
theorem marked?_relabel : (i.relabel f).marked? = i.marked?.map f := by
  cases i <;> rfl

@[simp]
theorem target?_relabel : (i.relabel f).target? = i.target?.map f := by
  cases i <;> rfl

@[simp]
theorem effect_relabel : (i.relabel f).effect = i.effect := by
  cases i <;> rfl

end Instr

namespace Flow

/-- A defect of code with other labels. -/
def Defect.relabel (f : Label → Label) : Defect → Defect
  | .unknownLabel position label => .unknownLabel position (f label)
  | .duplicateLabel position label => .duplicateLabel position (f label)
  | d => d

variable {f : Label → Label}

/-! ## Marks and jumps -/

theorem markOf?_map_relabel (hf : Function.Injective f) (code : List Instr) (label : Label) :
    markOf? (code.map (Instr.relabel f)) (f label) = markOf? code label := by
  unfold markOf?
  rw [List.findIdx?_map]
  congr 1
  funext i
  have hmarked : (i.relabel f).marked? = some (f label) ↔ i.marked? = some label := by
    rw [Instr.marked?_relabel]
    exact (Option.map_injective hf).eq_iff' rfl
  exact decide_eq_decide.mpr hmarked

theorem duplicate?_map_relabel (hf : Function.Injective f) (position : Nat) (seen : List Label)
    (is : List Instr) :
    duplicate? position (seen.map f) (is.map (Instr.relabel f)) =
      (duplicate? position seen is).map (Prod.map id f) := by
  induction is generalizing position seen with
  | nil => rfl
  | cons i rest ih =>
      rw [List.map_cons, duplicate?, duplicate?, Instr.marked?_relabel]
      cases hmarked : i.marked? with
      | none => exact ih _ seen
      | some label =>
          rw [Option.map_some]
          by_cases hseen : label ∈ seen
          · have hseen' : f label ∈ seen.map f := List.mem_map_of_mem hseen
            simp only [hseen, hseen', if_true]
            rfl
          · have hseen' : f label ∉ seen.map f := by
              rwa [List.mem_map_of_injective hf]
            simp only [hseen, hseen', if_false]
            exact ih _ (label :: seen)

theorem dangling?_map_relabel (hf : Function.Injective f) (code : List Instr) (position : Nat)
    (is : List Instr) :
    dangling? (code.map (Instr.relabel f)) position (is.map (Instr.relabel f)) =
      (dangling? code position is).map (Prod.map id f) := by
  induction is generalizing position with
  | nil => rfl
  | cons i rest ih =>
      rw [List.map_cons, dangling?, dangling?, Instr.target?_relabel]
      cases htarget : i.target? with
      | none => exact ih _
      | some label =>
          rw [Option.map_some]
          dsimp only
          rw [markOf?_map_relabel hf]
          split
          · rfl
          · exact ih _

/-! ## The graph -/

theorem startsFrom_map_relabel (f : Label → Label) (position : Nat) (afterJump : Bool)
    (is : List Instr) :
    startsFrom position afterJump (is.map (Instr.relabel f)) = startsFrom position afterJump is := by
  induction is generalizing position afterJump with
  | nil => rfl
  | cons i rest ih =>
      rw [List.map_cons, startsFrom, startsFrom, ih, Instr.marked?_relabel, Instr.target?_relabel,
        Option.isSome_map, Option.isSome_map]

theorem spans_map_relabel (f : Label → Label) (code : List Instr) :
    spans (code.map (Instr.relabel f)) = spans code := by
  unfold spans starts
  rw [startsFrom_map_relabel, List.length_map]

theorem spanAt?_map_relabel (f : Label → Label) (code : List Instr) (position : Nat) :
    spanAt? (code.map (Instr.relabel f)) position = spanAt? code position := by
  unfold spanAt?
  rw [spans_map_relabel]

theorem blockOf?_map_relabel (hf : Function.Injective f) (code : List Instr) (label : Label) :
    blockOf? (code.map (Instr.relabel f)) (f label) = blockOf? code label := by
  unfold blockOf?
  rw [markOf?_map_relabel hf]
  congr 1
  funext position
  exact spanAt?_map_relabel f code position

theorem successors_map_relabel (hf : Function.Injective f) (code : List Instr) (stop : Nat) :
    successors (code.map (Instr.relabel f)) stop = successors code stop := by
  unfold successors
  rw [List.getElem?_map, spanAt?_map_relabel]
  cases code[stop - 1]? with
  | none => rfl
  | some i =>
      cases i with
      | jump cond label => simp only [Option.map_some, Instr.relabel, blockOf?_map_relabel hf]
      | goto label => simp only [Option.map_some, Instr.relabel, blockOf?_map_relabel hf]
      | _ => rfl

/-- The graph is the same, or the same rule for labels is violated at the same position. -/
theorem ofCode_map_relabel (hf : Function.Injective f) (code : List Instr) :
    Graph.ofCode (code.map (Instr.relabel f)) = (Graph.ofCode code).mapError (Defect.relabel f) := by
  unfold Graph.ofCode
  have hduplicate := duplicate?_map_relabel hf 0 [] code
  rw [List.map_nil] at hduplicate
  rw [hduplicate, dangling?_map_relabel hf, spans_map_relabel]
  cases duplicate? 0 [] code with
  | some first => rfl
  | none =>
      cases dangling? code 0 code with
      | some first => rfl
      | none =>
          simp only [Option.map_none, successors_map_relabel hf]
          rfl

/-! ## The heights -/

theorem walk_map_relabel (f : Label → Label) (limit position height : Nat) (is : List Instr) :
    walk limit position height (is.map (Instr.relabel f)) = walk limit position height is := by
  induction is generalizing position height with
  | nil => rfl
  | cons i rest ih =>
      simp only [List.map_cons, walk, Instr.effect_relabel, ih]

theorem body_map_relabel (f : Label → Label) (b : Block) (code : List Instr) :
    b.body (code.map (Instr.relabel f)) = (b.body code).map (Instr.relabel f) := by
  unfold Block.body
  rw [← List.map_drop, ← List.map_take]

theorem runsOff_map_relabel (f : Label → Label) (b : Block) (code : List Instr) :
    b.runsOff (code.map (Instr.relabel f)) = b.runsOff code := by
  unfold Block.runsOff
  rw [List.length_map, List.getElem?_map]
  cases code[b.stop - 1]? with
  | none => rfl
  | some i => cases i <;> rfl

/-- Exploring a graph does not look at labels. -/
theorem explore_map_relabel (f : Label → Label) (code : List Instr) (limit : Nat) (g : Graph)
    (off : Option Nat) (heights : List (Option Nat)) (queue : List Nat) :
    explore (code.map (Instr.relabel f)) limit g off heights queue =
      explore code limit g off heights queue := by
  have hwalk : ∀ (b : Block) (height : Nat),
      walk limit b.start height (b.body (code.map (Instr.relabel f))) =
        walk limit b.start height (b.body code) := by
    intro b height
    rw [body_map_relabel, walk_map_relabel]
  fun_induction explore code limit g off heights queue with
  | case1 => rw [explore]
  | case2 off heights index queue b height hheight hb d hstops =>
      rw [explore]
      simp only [hb, hheight, hwalk, hstops]
  | case3 off heights index queue b height hheight hb after hgoes d hspread =>
      rw [explore]
      simp only [hb, hheight, hwalk, hgoes]
      split
      · next d' hspread' =>
        cases hspread'.symm.trans hspread
        rfl
      · next next hspread' => cases hspread'.symm.trans hspread
  | case4 off heights index queue b height hheight hb after hgoes next hspread ih =>
      simp only [dite_eq_ite] at ih
      rw [explore]
      simp only [hb, hheight, hwalk, hgoes, runsOff_map_relabel]
      split
      · next d hspread' => cases hspread'.symm.trans hspread
      · next next' hspread' =>
        cases hspread'.symm.trans hspread
        exact ih
  | case5 off heights index queue hskip ih =>
      rw [explore]
      split
      · next b height hb hheight => exact (hskip b height hb hheight).elim
      · exact ih

/-- What an exploration reports names no label. -/
theorem relabel_of_explore_error (f : Label → Label) {code : List Instr} {limit : Nat} {g : Graph}
    {off : Option Nat} {heights : List (Option Nat)} {queue : List Nat} {d : Defect}
    (h : explore code limit g off heights queue = .error d) : d.relabel f = d := by
  fun_induction explore code limit g off heights queue with
  | case1 => cases h
  | case2 off heights index queue b height hheight hb d' hstops =>
      cases h
      obtain ⟨k, i, x, -, -, hmisfits⟩ := misfits_of_walk_error hstops
      rcases hmisfits with ⟨-, rfl⟩ | ⟨-, -, rfl⟩
      · rfl
      · rfl
  | case3 off heights index queue b height hheight hb after hgoes d' hspread =>
      cases h
      obtain ⟨k, -, x, -, -, rfl⟩ := exists_of_spread_error hspread
      rfl
  | case4 off heights index queue b height hheight hb after hgoes next hspread ih =>
      simp only [dite_eq_ite] at ih
      exact ih h
  | case5 off heights index queue hskip ih => exact ih h

/-! ## The verdict -/

variable {limit entry final : Nat} {code : List Instr}

/-- Code with other labels gets the same verdict, with the labels in it renamed. -/
theorem verify_map_relabel (hf : Function.Injective f) (limit : Nat) (code : List Instr)
    (entry : Nat) :
    verify limit (code.map (Instr.relabel f)) entry =
      (verify limit code entry).mapError (Defect.relabel f) := by
  by_cases hne : code = []
  · subst hne
    rfl
  · have hne' : code.map (Instr.relabel f) ≠ [] := by
      rwa [Ne, List.map_eq_nil_iff]
    rw [verify_eq hne, verify_eq hne', ofCode_map_relabel hf]
    cases Graph.ofCode code with
    | error d => rfl
    | ok g =>
        simp only [Except.mapError, explore_map_relabel]
        split
        · next d hexplore => exact congrArg Except.error (relabel_of_explore_error f hexplore).symm
        · rfl
        · rfl

/-- A machine that starts higher, and may go as much higher, takes the same steps. -/
theorem within_add {i : Instr} {x y : Nat} (h : i.within limit x = some y) (k : Nat) :
    i.within (limit + k) (x + k) = some (y + k) := by
  rw [Instr.within_eq_some_iff] at h ⊢
  obtain ⟨hpops, hlimit, rfl⟩ := h
  unfold Instr.heightAfter at hlimit ⊢
  exact ⟨by omega, by omega, by omega⟩

/-- With more slots below, and a limit raised by as many, accepted code is accepted, and they
are still there at the end. -/
theorem verify_add (h : verify limit code entry = .ok final) (k : Nat) :
    verify (limit + k) code (entry + k) = .ok (final + k) := by
  rw [verify_eq_ok_iff] at h ⊢
  obtain ⟨hlabels, hcarries⟩ := h
  exact ⟨hlabels, hcarries.map (· + k) fun _ _ hstep => within_add hstep k⟩

/-- A verdict depends neither on what lies below nor on how labels are called. -/
theorem verify_invariant (limit : Nat) (code : List Instr) (entry : Nat) :
    (∀ final k : Nat, verify limit code entry = .ok final →
      verify (limit + k) code (entry + k) = .ok (final + k)) ∧
    ∀ f : Label → Label, Function.Injective f →
      verify limit (code.map (Instr.relabel f)) entry =
        (verify limit code entry).mapError (Defect.relabel f) :=
  ⟨fun _ k h => verify_add h k, fun _ hf => verify_map_relabel hf limit code entry⟩

/-- A loop over three more slots, and a label that is marked twice under other names. -/
theorem verify_invariant_shifted :
    (verify 2 [.mark ⟨0⟩, .intConst 1, .jump .isZero ⟨0⟩] 1 = .ok 1 ∧
      verify 5 [.mark ⟨0⟩, .intConst 1, .jump .isZero ⟨0⟩] 4 = .ok 4) ∧
    Function.Injective (fun label : Label => Label.mk (label.id + 7)) ∧
      verify 2 [.mark ⟨1⟩, .goto ⟨2⟩, .mark ⟨1⟩] 0 = .error (.duplicateLabel 2 ⟨1⟩) ∧
      verify 2 [.mark ⟨8⟩, .goto ⟨9⟩, .mark ⟨8⟩] 0 = .error (.duplicateLabel 2 ⟨8⟩) := by
  have hloop : verify 2 [.mark ⟨0⟩, .intConst 1, .jump .isZero ⟨0⟩] 1 = .ok 1 := by cbv
  have htwice : verify 2 [.mark ⟨1⟩, .goto ⟨2⟩, .mark ⟨1⟩] 0 = .error (.duplicateLabel 2 ⟨1⟩) := by
    cbv
  have hf : Function.Injective (fun label : Label => Label.mk (label.id + 7)) := by
    intro a b hab
    have hid : a.id + 7 = b.id + 7 := congrArg Label.id hab
    exact congrArg Label.mk (Nat.add_right_cancel hid)
  have hrenamed := (verify_invariant 2 [.mark ⟨1⟩, .goto ⟨2⟩, .mark ⟨1⟩] 0).2 _ hf
  rw [htwice] at hrenamed
  exact ⟨⟨hloop, (verify_invariant 2 _ 1).1 1 3 hloop⟩, hf, htwice, hrenamed⟩

end Flow

end Lockstep
