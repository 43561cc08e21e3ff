import Lockstep.Proofs.Machine.Operations

/-!
# The tests of truth on stacks of carriers

The tests of truth are the only code with branches.  They are annotated with the
stack at every position: at the mark where all branches meet there is an int on top
of what was below the value, at the mark for the falsy values nothing, and at the
mark for the falsy values that still have a copy the value itself.

The test of a `double` is the one that needs four slots more than it finds.
-/

namespace Lockstep

open Lockstep.Flow

variable {α : Type} [DecidableEq α] {v : View α} (values : List α) {first limit : Nat}

/-- The stacks at the labels of a test of a value. -/
def stacksAt (first : Nat) (done falsy falsyWithCopy : List α) (label : Label) : List α :=
  if label.id = first then done
  else if label.id = first + 1 then falsy
  else falsyWithCopy

theorem carries_integralTruth (hlimit : v.slots (v.of .int :: values) ≤ limit) :
    Carries (v.bounded limit) (Prim.integralTruth first) (v.of .int :: values)
      (v.of .int :: values) := by
  have hbelow : v.slots values ≤ limit := by
    rw [View.slots_of_cons] at hlimit
    omega
  have hannotates : Annotates (v.bounded limit)
      (stacksAt first (v.of .int :: values) values values) (Prim.integralTruth first)
      [v.of .int :: values, values, v.of .int :: values, values, values, v.of .int :: values,
        v.of .int :: values] := by
    simp [Prim.integralTruth, Annotates, View.bounded_eq_some_iff, View.act, Instr.signature?,
      Cond.carrier, List.isPrefixOf?, Instr.marked?, Instr.target?, Instr.fallsThrough, stacksAt,
      hlimit, hbelow]
  refine .of_annotates hannotates rfl ?_
  refine .tail (.tail (reflTransGen_of_fallsThrough _ 2 ?_ ?_)
    (.jumps (q := 5) rfl rfl rfl)) (.falls rfl rfl)
  · show 2 ≤ 6
    decide
  · simp [Prim.integralTruth, Instr.fallsThrough]

/-- The test of a floating-point value keeps a copy under what it compares. -/
theorem carries_floatingTruth {kind : Prim} {x : α} (hkind : kind = .float ∨ kind = .double)
    (hx : x = v.of (.ofPrim kind)) (hlimit : v.slots (x :: x :: x :: values) ≤ limit) :
    Carries (v.bounded limit) (kind.truthCode first) (x :: values) (v.of .int :: values) := by
  -- the copy stays under the comparison and the question whether it is a number
  have hannotates : Annotates (v.bounded limit)
      (stacksAt first (v.of .int :: values) values (x :: values)) (kind.truthCode first)
      [x :: values, x :: x :: values, x :: x :: x :: values, v.of .int :: x :: values,
        x :: values, v.of .int :: values, values, v.of .int :: values, x :: values, x :: values,
        values, values, v.of .int :: values, v.of .int :: values] := by
    rw [hx] at hlimit
    rcases hkind with rfl | rfl
    all_goals
      simp [View.slots_of_cons, Carrier.ofPrim, Carrier.width, Width.slots] at hlimit
      simp [hx, Prim.truthCode, Prim.floatingTruth, Annotates, View.bounded_eq_some_iff, View.act,
        View.shuffle, v.width_of, Carrier.width, Instr.signature?, Method.takes, Method.leaves,
        Prim.isNaN, Cond.carrier, ValueType.carrier, ValueType.boolean, Carrier.ofPrim,
        List.isPrefixOf?, Instr.marked?, Instr.target?, Instr.fallsThrough, stacksAt,
        View.slots_of_cons, Width.slots]
      omega
  rcases hkind with rfl | rfl
  all_goals
    refine .of_annotates hannotates rfl ?_
    refine .tail (.tail (reflTransGen_of_fallsThrough _ 7 ?_ ?_)
      (.jumps (q := 12) rfl rfl rfl)) (.falls rfl rfl)
    · show 7 ≤ 13
      decide
    · simp [Prim.truthCode, Prim.floatingTruth, Instr.fallsThrough]

/-! ## All tests -/

/-- A test marks exactly the labels it was given, and jumps to no others. -/
theorem Prim.wellLabelled_truthCode (kind : Prim) (first : Nat) :
    WellLabelled (kind.truthCode first) ∧
      ∀ label, .mark label ∈ kind.truthCode first →
        first ≤ label.id ∧ label.id < first + kind.truthLabels := by
  refine ⟨⟨?_, ?_⟩, ?_⟩
  · cases kind <;>
      simp [Prim.truthCode, Prim.floatingTruth, Prim.integralTruth, List.filterMap_cons,
        Instr.marked?]
  · cases kind <;>
      simp [Prim.truthCode, Prim.floatingTruth, Prim.integralTruth, Instr.target?]
  · rintro ⟨id⟩ hmark
    cases kind <;>
      simp [Prim.truthCode, Prim.floatingTruth, Prim.integralTruth, Prim.truthLabels] at hmark ⊢
    all_goals omega

theorem ValueType.wellLabelled_truthCode (t : ValueType) (s : Support) (first : Nat) :
    WellLabelled (t.truthCode s first) ∧
      ∀ label, .mark label ∈ t.truthCode s first →
        first ≤ label.id ∧ label.id < first + t.truthLabels := by
  cases t with
  | primitive kind => exact kind.wellLabelled_truthCode first
  | _ =>
      have hstraight : Straight [.invoke (s.unbox .boolean)] := by
        simp [Straight, Instr.target?, Instr.marked?]
      exact ⟨hstraight.wellLabelled, fun label hmark => absurd hmark (hstraight.not_mark_mem label)⟩

/-- Every test replaces the value by an int. -/
theorem carries_truthCode (t : ValueType) (s : Support)
    (hlimit : v.slots (v.of t.carrier :: values) + 4 ≤ limit) :
    Carries (v.bounded limit) (t.truthCode s first) (v.of t.carrier :: values)
      (v.of .int :: values) := by
  have hslots := t.carrier.slots_bounds
  have hint : v.slots (v.of .int :: values) ≤ limit := by
    rw [View.slots_of_cons] at hlimit ⊢
    show 1 + v.slots values ≤ limit
    omega
  have hcopies : v.slots (v.of t.carrier :: v.of t.carrier :: v.of t.carrier :: values) ≤
      limit := by
    rw [View.slots_of_cons] at hlimit
    rw [View.slots_of_cons, View.slots_of_cons, View.slots_of_cons]
    omega
  cases t with
  | primitive kind =>
      cases kind with
      | boolean => exact (Moves.nil v _).carries (Nat.le_of_add_right_le hlimit)
      | long =>
          have hcompare : Moves v [.longZero, .compareLong] (v.of .long :: values)
              (v.of .int :: values) 2 :=
            (Moves.of_signature? .longZero (v.of .long :: values) rfl rfl rfl).append
              (Moves.of_signature? .compareLong values rfl rfl rfl)
          refine Carries.append hcompare.straight.wellLabelled
            (Prim.wellLabelled_truthCode .int first).1
            (fun label hmark => absurd hmark (hcompare.straight.not_mark_mem label))
            (hcompare.carries ?_) (carries_integralTruth values hint)
          exact Nat.le_trans (Nat.add_le_add_left (by decide) _) hlimit
      | float => exact carries_floatingTruth values (.inl rfl) rfl hcopies
      | double => exact carries_floatingTruth values (.inr rfl) rfl hcopies
      | _ => exact carries_integralTruth values hint
  | _ =>
      refine (Moves.of_signature? (.invoke (s.unbox .boolean)) values rfl rfl rfl).carries ?_
      exact Nat.le_of_add_right_le hlimit

end Lockstep
