import Lockstep.Proofs.Machine.Execution
import Lockstep.Proofs.Machine.Runs

/-!
# The truth of primitive values

The code that reduces a primitive to a truth value, executed: whatever the value is, and
whatever is below it, the machine ends with the value replaced by 1 if it is neither a zero
nor a floating-point value that is no number, and by 0 if it is one of these
(`executes_truthCode`).

The tests of floating-point values share one piece of code, for what takes one slot and for
what takes two, and one lemma about it (`executes_floatingTruth`), which asks no more of the
instructions that copy, compare and discard than what they make of the slots.
-/

namespace Lockstep

open Lockstep.Decimal Lockstep.Flow

variable {ρ : Type}

/-! ## Values -/

/-- The values of a kind. -/
abbrev Prim.Value : Prim → Type
  | .boolean => Bool
  | .byte => Int8
  | .char => UInt16
  | .short => Int16
  | .int => Int32
  | .long => Int64
  | .float => Binary32
  | .double => Binary64

/-- The slots of a value, the top first. -/
def Prim.slots : (kind : Prim) → kind.Value → List (Slot ρ)
  | .boolean, b => [.truth b]
  | .byte, n => [.word n.toInt32.toBitVec]
  | .char, u => [.word u.toUInt32.toBitVec]
  | .short, n => [.word n.toInt32.toBitVec]
  | .int, n => [.word n.toBitVec]
  | .long, n => Slot.wide n.toBitVec
  | .float, x => [.word x.bits.toBitVec]
  | .double, x => Slot.wide x.bits.toBitVec

/-- The truth of a value: zeros are false, of either sign, and what is no number. -/
def Prim.isTrue : (kind : Prim) → kind.Value → Bool
  | .boolean, b => b
  | .byte, n => n ≠ 0
  | .char, u => u ≠ 0
  | .short, n => n ≠ 0
  | .int, n => n ≠ 0
  | .long, n => n ≠ 0
  | .float, x => !x.isZero && !x.decode.isNaN
  | .double, x => !x.isZero && !x.decode.isNaN

/-! ## The two tests -/

/-- An int is replaced by 0 or 1, whatever makes it zero. -/
theorem executes_integralTruth (first : Nat) {bits : BitVec 32} (zero : Prop) [Decidable zero]
    (hzero : bits = 0 ↔ zero) (below : List (Slot ρ)) :
    Executes (Prim.integralTruth first) (.word bits :: below) (.truth (¬ zero) :: below) := by
  have hjump : Steps (Prim.integralTruth first) ⟨0, .word bits :: below⟩
      ⟨if decide (bits = 0) then 3 else 1, below⟩ := .jump rfl rfl rfl
  refine .head hjump ?_
  by_cases hfalsy : zero
  · rw [if_pos (decide_eq_true (hzero.mpr hfalsy)), decide_eq_false (not_not.mpr hfalsy)]
    exact .head (.falls rfl rfl) (.head (.falls rfl rfl) (.single (.falls rfl rfl)))
  · rw [if_neg (by rw [decide_eq_true_eq, hzero]; exact hfalsy), decide_eq_true hfalsy]
    exact .head (.falls rfl rfl) (.head (.jumps (q := 5) rfl rfl rfl) (.single (.falls rfl rfl)))

/-- A floating-point value is compared with zero, and asked whether it is a number if it is
not zero; the copy that the question needs is discarded if it is not asked. -/
theorem executes_floatingTruth {kind : Prim} (first : Nat) {copy zero compare discard : Instr}
    (value zeroes : List (Slot ρ)) {below : List (Slot ρ)} {order : Ordering} {nan : Bool}
    (hstraight : Straight [copy, zero, compare, discard])
    (hcopy : copy.compute (value ++ below) = some (value ++ (value ++ below)))
    (hzero : zero.compute (value ++ (value ++ below)) = some (zeroes ++ (value ++ (value ++ below))))
    (hcompare : compare.compute (zeroes ++ (value ++ (value ++ below))) =
      some (.word (orderWord order) :: (value ++ below)))
    (hnan : (Instr.invoke kind.isNaN).compute (value ++ below) = some (.truth nan :: below))
    (hdiscard : discard.compute (value ++ below) = some below) :
    Executes (kind.floatingTruth first copy zero compare discard) (value ++ below)
      (.truth (order ≠ .eq && !nan) :: below) := by
  have htarget : ∀ i ∈ [copy, zero, compare, discard], i.target? = none := fun i hi =>
    (hstraight i hi).1
  -- a value that compares as a zero goes to the mark where the copy is discarded
  have hcompared : Relation.ReflTransGen
      (Steps (kind.floatingTruth first copy zero compare discard)) ⟨0, value ++ below⟩
      ⟨if orderWord order = 0 then 8 else 4, value ++ below⟩ := by
    refine .head (.falls rfl (Instr.execute_of_compute (htarget copy (by simp)) hcopy)) ?_
    refine .head (.falls rfl (Instr.execute_of_compute (htarget zero (by simp)) hzero)) ?_
    refine .head (.falls rfl (Instr.execute_of_compute (htarget compare (by simp)) hcompare)) ?_
    have hjump : Steps (kind.floatingTruth first copy zero compare discard)
        ⟨3, .word (orderWord order) :: (value ++ below)⟩
        ⟨if decide (orderWord order = 0) then 8 else 4, value ++ below⟩ := .jump rfl rfl rfl
    simp only [decide_eq_true_eq] at hjump
    exact .single hjump
  have hfalsy : Relation.ReflTransGen
      (Steps (kind.floatingTruth first copy zero compare discard)) ⟨10, below⟩
      ⟨13, .truth false :: below⟩ :=
    .head (.falls rfl rfl) (.head (.falls rfl rfl) (.single (.falls rfl rfl)))
  by_cases heq : order = .eq
  · rw [if_pos (orderWord_eq_zero_iff.mpr heq)] at hcompared
    have hdiscards := Instr.execute_of_compute (htarget discard (by simp)) hdiscard
    have hends := hcompared.trans (.head (.falls rfl rfl) (.head (.falls rfl hdiscards) hfalsy))
    show Relation.ReflTransGen _ _ (Config.mk 13 _)
    simpa [heq] using hends
  · rw [if_neg (mt orderWord_eq_zero_iff.mp heq)] at hcompared
    have hasks := Instr.execute_of_compute (i := .invoke kind.isNaN) rfl hnan
    cases nan with
    | true =>
        have hends := hcompared.trans (.head (.falls rfl hasks) (.head (.jump rfl rfl rfl) hfalsy))
        show Relation.ReflTransGen _ _ (Config.mk 13 _)
        simpa using hends
    | false =>
        have hends := hcompared.trans (.head (.falls rfl hasks)
          (.head (.jump (q := 10) rfl rfl rfl) (.head (.falls rfl rfl)
            (.head (.jumps (q := 12) rfl rfl rfl) (.single (.falls rfl rfl))))))
        show Relation.ReflTransGen _ _ (Config.mk 13 _)
        simpa [heq, Slot.truth] using hends

/-! ## Every kind -/

theorem Prim.isNaN_float : Prim.isNaN .float = Method.floatIsNaN := by cbv

theorem Prim.isNaN_double : Prim.isNaN .double = Method.doubleIsNaN := by cbv

theorem executes_longTruth (first : Nat) (n : Int64) (below : List (Slot ρ)) :
    Executes (Prim.truthCode .long first) (Slot.wide n.toBitVec ++ below)
      (.truth (n ≠ 0) :: below) := by
  have hstraight : Straight [.longZero, .compareLong] := by
    simp [Straight, Instr.target?, Instr.marked?]
  have hcompare : runs Instr.compute [.longZero, .compareLong] (Slot.wide n.toBitVec ++ below) =
      some (.word (orderWord (cmp n.toInt 0)) :: below) := by
    show (Instr.compareLong.compute (Slot.wide 0 ++ (Slot.wide n.toBitVec ++ below))).bind some = _
    rw [Instr.compute_compareLong]
    rfl
  have hzero : orderWord (cmp n.toInt 0) = 0 ↔ n = 0 := by
    rw [orderWord_eq_zero_iff, cmp_eq_eq_iff, ← Int64.toInt_inj]
    exact Iff.rfl
  exact (Executes.of_runs hstraight hcompare).append (executes_integralTruth first _ hzero below)

theorem executes_floatTruth (first : Nat) (x : Binary32) (below : List (Slot ρ)) :
    Executes (Prim.truthCode .float first) (.word x.bits.toBitVec :: below)
      (.truth (!x.isZero && !x.decode.isNaN) :: below) := by
  have hstraight : Straight [.dup, .floatZero, .compareFloat, .pop] := by
    simp [Straight, Instr.target?, Instr.marked?]
  have hnan : (Instr.invoke (Prim.isNaN .float)).compute (.word x.bits.toBitVec :: below) =
      some (.truth x.decode.isNaN :: below) := by
    rw [Prim.isNaN_float]
    exact Method.answer_floatIsNaN x below
  have hcompare := Instr.compute_compareFloat x ⟨0⟩ (.word x.bits.toBitVec :: below)
  have htruth := executes_floatingTruth first [.word x.bits.toBitVec] [.word 0] hstraight rfl rfl
    hcompare hnan rfl
  rw [Decoded.decide_compare_ne_eq rfl, Binary32.isZero_decode] at htruth
  exact htruth

theorem executes_doubleTruth (first : Nat) (x : Binary64) (below : List (Slot ρ)) :
    Executes (Prim.truthCode .double first) (Slot.wide x.bits.toBitVec ++ below)
      (.truth (!x.isZero && !x.decode.isNaN) :: below) := by
  have hstraight : Straight [.dup2, .doubleZero, .compareDouble, .pop2] := by
    simp [Straight, Instr.target?, Instr.marked?]
  have hnan : (Instr.invoke (Prim.isNaN .double)).compute (Slot.wide x.bits.toBitVec ++ below) =
      some (.truth x.decode.isNaN :: below) := by
    rw [Prim.isNaN_double]
    exact Method.answer_doubleIsNaN x below
  have hcompare := Instr.compute_compareDouble x ⟨0⟩ (Slot.wide x.bits.toBitVec ++ below)
  have htruth := executes_floatingTruth first (Slot.wide x.bits.toBitVec) (Slot.wide 0) hstraight
    rfl rfl hcompare hnan rfl
  rw [Decoded.decide_compare_ne_eq rfl, Binary64.isZero_decode] at htruth
  exact htruth

/-- The test of a primitive replaces its value by the truth of it, and touches nothing
below. -/
theorem executes_truthCode {kind : Prim} (v : kind.Value) (first : Nat) (below : List (Slot ρ)) :
    Executes (kind.truthCode first) (kind.slots v ++ below) (.truth (kind.isTrue v) :: below) := by
  cases kind with
  | boolean => exact .refl
  | byte =>
      refine executes_integralTruth first (v = 0) ?_ below
      rw [← BitVec.toInt_inj, ← Int8.toInt_inj]
      exact Eq.congr (Int8.toInt_toInt32 v) rfl
  | char =>
      refine executes_integralTruth first (v = 0) ?_ below
      rw [← BitVec.toNat_inj, ← UInt16.toNat_inj]
      exact Eq.congr (UInt16.toNat_toUInt32 v) rfl
  | short =>
      refine executes_integralTruth first (v = 0) ?_ below
      rw [← BitVec.toInt_inj, ← Int16.toInt_inj]
      exact Eq.congr (Int16.toInt_toInt32 v) rfl
  | int =>
      refine executes_integralTruth first (v = 0) ?_ below
      rw [← BitVec.toInt_inj, ← Int32.toInt_inj]
      exact Iff.rfl
  | long => exact executes_longTruth first v below
  | float => exact executes_floatTruth first v below
  | double => exact executes_doubleTruth first v below

/-! ## The reduction -/

/-- Reducing a primitive above a mark succeeds, and the code that it appends computes the truth
of the value: run from its first instruction it cannot but end past its last one, with the
truth as an int in the place of the value and everything below untouched.  A truth value stays
as it is, with no code. -/
theorem truth_of_castToBool {c : Context} {s : State} {kind : Prim} {rest : List ValueType}
    (hentries : s.entries = .primitive kind :: rest) (ifEmpty : Bool) :
    ∃ after code, (Op.castToBool rest.length ifEmpty).run c s = .ok () after ∧
      after.entries = .boolean :: rest ∧ after.code.toList = s.code.toList ++ code ∧
      (kind = .boolean → code = []) ∧
      ∀ {ρ : Type} (v : kind.Value) (below : List (Slot ρ)),
        Executes code (kind.slots v ++ below) (.truth (kind.isTrue v) :: below) ∧
        ∀ x, Relation.ReflTransGen (Steps code) ⟨0, kind.slots v ++ below⟩ x →
          Relation.ReflTransGen (Steps code) x ⟨code.length, .truth (kind.isTrue v) :: below⟩ := by
  refine ⟨_, kind.truthCode s.labels, Op.run_castToBool_cons c s hentries ifEmpty, rfl, ?_, ?_, ?_⟩
  · rw [State.code_withEntries, State.toList_code_appending, State.code_allotting]
    rfl
  · rintro rfl
    rfl
  · intro ρ v below
    have hexecutes := executes_truthCode v s.labels below
    exact ⟨hexecutes, fun x hx => hexecutes.of_reached (kind.wellLabelled_truthCode s.labels).1 hx⟩

/-- A `double` that is no number, above a `long`, is false; and the `long` stays. -/
theorem truth_of_castToBool_nan :
    ∃ after code,
      (Op.castToBool 1 false).run bareContext
        (State.initial.withEntries [.primitive .double, .primitive .long]) = .ok () after ∧
      after.entries = [.boolean, .primitive .long] ∧ code.length = 13 ∧
      Executes code (Slot.wide 0x7FF8000000000000 ++ Slot.wide 7)
        (.truth false :: (Slot.wide 7 : List (Slot Unit))) := by
  have hentries : (State.initial.withEntries [.primitive .double, .primitive .long]).entries =
      [.primitive .double, .primitive .long] := rfl
  obtain ⟨after, code, hrun, hleft, hcode, -, hexecutes⟩ :=
    truth_of_castToBool (c := bareContext) hentries false
  have hlength : code.length = 13 := by
    cases hrun.symm.trans (Op.run_castToBool_cons bareContext _ hentries false)
    cases hcode
    rfl
  exact ⟨after, code, hrun, hleft, hlength, (hexecutes ⟨0x7FF8000000000000⟩ (Slot.wide 7)).1⟩

end Lockstep
