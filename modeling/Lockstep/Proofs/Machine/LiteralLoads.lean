import Lockstep.Proofs.Decimal.PowersOfTwo
import Lockstep.Proofs.Machine.Integers
import Lockstep.Proofs.Machine.Literals

/-!
# What the load of a literal is read back as

Whatever literal of a primitive kind is pushed, under the kind or under its box, the one
instruction that loads it determines it (`pushLiteral_exact`): `Prim.decodeLoad?` reads the
literal off the instruction, floating-point values by their bits.  So no two literals of a kind
have the same load.

Among the loads of an int there is one that is due (`Instr.IsShortest`): none of them reaches
further than the next, and the one that is used is the first that reaches the value.

The dedicated loads of floating-point values are those of a zero without a sign, told by its
bits, and of 1 and 2, told by comparison.  What is no number compares as equal with nothing, and
a zero with a sign is neither.
-/

namespace Lockstep

open Lockstep.Decimal

/-! ## Reading loads back -/

namespace Instr

/-- The long that an instruction loads. -/
def loadedLong? : Instr → Option Int64
  | .longZero => some 0
  | .longOne => some 1
  | .poolConst (.long v) => some v
  | _ => none

/-- The `float` that an instruction loads. -/
def loadedFloat? : Instr → Option Binary32
  | .floatZero => some (.ofInt 0)
  | .floatOne => some (.ofInt 1)
  | .floatTwo => some (.ofInt 2)
  | .poolConst (.float x) => some x
  | _ => none

/-- The `double` that an instruction loads. -/
def loadedDouble? : Instr → Option Binary64
  | .doubleZero => some (.ofInt 0)
  | .doubleOne => some (.ofInt 1)
  | .poolConst (.double x) => some x
  | _ => none

/-- The truth value that an instruction loads, as an int or as one of the two boxes that the
platform shares. -/
def loadedTruth? : Instr → Option Bool
  | .getStatic f =>
    if f = ⟨"java/lang/Boolean", "TRUE", .boxed .boolean⟩ then some true
    else if f = ⟨"java/lang/Boolean", "FALSE", .boxed .boolean⟩ then some false
    else none
  | i =>
    match i.loadedInt? with
    | some 0 => some false
    | some 1 => some true
    | _ => none

end Instr

/-- The integer of a kind that a number is, if it is one. -/
def Integral.ofNumber? (k : Integral) (n : Int) : Option k.Value :=
  if k.number (k.reduce n) = n then some (k.reduce n) else none

theorem Integral.ofNumber?_number (k : Integral) (v : k.Value) :
    k.ofNumber? (k.number v) = some v := by
  rw [ofNumber?, reduce_number, if_pos rfl]

/-- The literal of a kind that an instruction loads. -/
def Prim.decodeLoad? : Prim → Instr → Option Literal
  | .boolean, i => i.loadedTruth?.map .boolean
  | .byte, i => (i.loadedInt?.bind (Integral.ofNumber? .byte)).map .byte
  | .char, i => (i.loadedInt?.bind (Integral.ofNumber? .char)).map .char
  | .short, i => (i.loadedInt?.bind (Integral.ofNumber? .short)).map .short
  | .int, i => (i.loadedInt?.bind (Integral.ofNumber? .int)).map .int
  | .long, i => i.loadedLong?.map .long
  | .float, i => i.loadedFloat?.map .float
  | .double, i => i.loadedDouble?.map .double

/-- An instruction loads an int with the shortest operand that holds it. -/
structure Instr.IsShortest (i : Instr) (n : Int) : Prop where
  inOpcode : (∃ v, i = .intConst v) ↔ 0 ≤ n ∧ n ≤ 5
  asByte : (∃ v, i = .bytePush v) ↔ ¬ (0 ≤ n ∧ n ≤ 5) ∧ -128 ≤ n ∧ n ≤ 127
  asShort : (∃ v, i = .shortPush v) ↔ ¬ (-128 ≤ n ∧ n ≤ 127) ∧ -32768 ≤ n ∧ n ≤ 32767
  fromPool : (∃ v, i = .poolConst (.int v)) ↔ ¬ (-32768 ≤ n ∧ n ≤ 32767)

/-- An instruction loads a `float` with a dedicated opcode exactly if it is the zero without a
sign, by its bits, or 1 or 2 by comparison; the zero with a sign and what is no number are in
the pool, bit for bit. -/
structure Instr.IsFloatLoad (i : Instr) (x : Binary32) : Prop where
  zero : i = .floatZero ↔ x.bits = 0
  one : i = .floatOne ↔ x.decode.compare (Binary32.ofInt 1).decode = .eq
  two : i = .floatTwo ↔ x.decode.compare (Binary32.ofInt 2).decode = .eq
  fromPool : x.decode.magnitude = .nan ∨ x.bits = 0x80000000 → i = .poolConst (.float x)

/-- An instruction loads a `double` with a dedicated opcode exactly if it is the zero without a
sign, by its bits, or 1 by comparison; the zero with a sign and what is no number are in the
pool, bit for bit. -/
structure Instr.IsDoubleLoad (i : Instr) (x : Binary64) : Prop where
  zero : i = .doubleZero ↔ x.bits = 0
  one : i = .doubleOne ↔ x.decode.compare (Binary64.ofInt 1).decode = .eq
  fromPool : x.decode.magnitude = .nan ∨ x.bits = 0x8000000000000000 → i = .poolConst (.double x)

namespace Literal

variable {value : Literal} {declared : ValueType} {kind : Prim} {i : Instr}

/-- The int that a literal is on the stack, if it is one there. -/
def number? : Literal → Option Int
  | .boolean b => some (if b then 1 else 0)
  | .byte v => some v.toInt
  | .char unit => some unit.toNat
  | .short v => some v.toInt
  | .int v => some v.toInt
  | _ => none

theorem isShortest_intLoad (n : Int32) : (intLoad n).IsShortest n.toInt := by
  unfold intLoad
  dsimp only
  split
  · next h =>
    constructor <;> simp <;> omega
  · next hopcode =>
    split
    · next h => constructor <;> simp <;> omega
    · next hbyte =>
      split
      · next h => constructor <;> simp <;> omega
      · next hshort => constructor <;> simp <;> omega

theorem loadedLong?_longLoad (v : Int64) : (longLoad v).loadedLong? = some v := by
  unfold longLoad
  split
  · next h => rw [h, Instr.loadedLong?]
  · split
    · next h => rw [h, Instr.loadedLong?]
    · rfl

theorem loadedFloat?_floatLoad (x : Binary32) : (floatLoad x).loadedFloat? = some x := by
  obtain ⟨bits⟩ := x
  unfold floatLoad
  dsimp only
  split
  · next h =>
    rw [h]
    rfl
  · split
    · next h =>
      rw [h]
      rfl
    · split
      · next h =>
        rw [h]
        rfl
      · rfl

theorem loadedDouble?_doubleLoad (x : Binary64) : (doubleLoad x).loadedDouble? = some x := by
  obtain ⟨bits⟩ := x
  unfold doubleLoad
  dsimp only
  split
  · next h =>
    rw [h]
    rfl
  · split
    · next h =>
      rw [h]
      rfl
    · rfl

theorem loadedTruth?_sharedBox (b : Bool) :
    (Instr.getStatic (sharedBox b)).loadedTruth? = some b := by
  have hname : (ValueType.boxed .boolean).internalName = "java/lang/Boolean" := by cbv
  rw [sharedBox, hname]
  cases b with
  | false => rfl
  | true => rfl

/-- The load of a literal is read back as the literal. -/
theorem decodeLoad?_of_primLoad? (h : primLoad? kind value = some i) :
    kind.decodeLoad? i = some value := by
  have hint : ∀ (k : Integral) (v : k.Value) (n : Int32), n.toInt = k.number v →
      (intLoad n).loadedInt?.bind k.ofNumber? = some v := by
    intro k v n hn
    rw [loadedInt?_intLoad, Option.bind_some, hn, k.ofNumber?_number]
  unfold primLoad? at h
  split at h
  · next b =>
    cases h
    cases b <;> rfl
  · next v =>
    cases h
    exact congrArg (Option.map Literal.byte) (hint .byte v _ (Int8.toInt_toInt32 v))
  · next unit =>
    cases h
    exact congrArg (Option.map Literal.char) (hint .char unit _ (toInt_unit unit))
  · next v =>
    cases h
    exact congrArg (Option.map Literal.short) (hint .short v _ (Int16.toInt_toInt32 v))
  · next v =>
    cases h
    exact congrArg (Option.map Literal.int) (hint .int v v rfl)
  · cases h
    exact congrArg (Option.map Literal.long) (loadedLong?_longLoad _)
  · cases h
    exact congrArg (Option.map Literal.float) (loadedFloat?_floatLoad _)
  · cases h
    exact congrArg (Option.map Literal.double) (loadedDouble?_doubleLoad _)
  · cases h

/-- The load of what is an int on the stack is the shortest one. -/
theorem isShortest_of_primLoad? {n : Int} (h : primLoad? kind value = some i)
    (hn : value.number? = some n) : i.IsShortest n := by
  have hint : ∀ m : Int32, m.toInt = n → (intLoad m).IsShortest n := by
    rintro m rfl
    exact isShortest_intLoad m
  unfold primLoad? at h
  split at h
  · next b =>
    cases h
    cases hn
    cases b with
    | false => exact isShortest_intLoad 0
    | true => exact isShortest_intLoad 1
  · cases h
    exact hint _ ((Int8.toInt_toInt32 _).trans (Option.some.inj hn))
  · cases h
    exact hint _ ((toInt_unit _).trans (Option.some.inj hn))
  · cases h
    exact hint _ ((Int16.toInt_toInt32 _).trans (Option.some.inj hn))
  · cases h
    exact hint _ (Option.some.inj hn)
  · cases hn
  · cases hn
  · cases hn
  · cases h

theorem isFloatLoad_floatLoad (x : Binary32) : (floatLoad x).IsFloatLoad x := by
  have hopcode : (floatLoad x = .floatZero ↔ x.bits = 0) ∧
      (floatLoad x = .floatOne ↔ x.bits = 0x3F800000) ∧
      (floatLoad x = .floatTwo ↔ x.bits = 0x40000000) := by
    unfold floatLoad
    split
    · next h => simp [h]
    · split
      · next h => simp [h]
      · split
        · next h => simp [h]
        · next hzero hone htwo => simp [hzero, hone, htwo]
  refine ⟨hopcode.1, ?_, ?_, ?_⟩
  · rw [Binary32.compare_one_iff, hopcode.2.1]
  · rw [Binary32.compare_two_iff, hopcode.2.2]
  · intro h
    have hother : x.bits ≠ 0 ∧ x.bits ≠ 0x3F800000 ∧ x.bits ≠ 0x40000000 := by
      obtain ⟨bits⟩ := x
      rcases h with hnan | rfl
      · refine ⟨?_, ?_, ?_⟩ <;> rintro rfl <;> cases hnan
      · decide
    rw [floatLoad, if_neg hother.1, if_neg hother.2.1, if_neg hother.2.2]

theorem isDoubleLoad_doubleLoad (x : Binary64) : (doubleLoad x).IsDoubleLoad x := by
  have hopcode : (doubleLoad x = .doubleZero ↔ x.bits = 0) ∧
      (doubleLoad x = .doubleOne ↔ x.bits = 0x3FF0000000000000) := by
    unfold doubleLoad
    split
    · next h => simp [h]
    · split
      · next h => simp [h]
      · next hzero hone => simp [hzero, hone]
  refine ⟨hopcode.1, ?_, ?_⟩
  · rw [Binary64.compare_one_iff, hopcode.2]
  · intro h
    have hother : x.bits ≠ 0 ∧ x.bits ≠ 0x3FF0000000000000 := by
      obtain ⟨bits⟩ := x
      rcases h with hnan | rfl
      · refine ⟨?_, ?_⟩ <;> rintro rfl <;> cases hnan
      · decide
    rw [doubleLoad, if_neg hother.1, if_neg hother.2]

/-- Under its own kind or the box of it a literal has one load, from which it can be read back.
It is the load of the primitive, except for the shared boxes of truth values. -/
theorem exists_load (hkind : declared.unbox = .primitive kind) (hvalue : value.prim? = some kind) :
    ∃ i boxing, value.load declared = .ok (i :: boxing, declared) ∧
      (boxing = [] ∨ boxing = [.box kind]) ∧ kind.decodeLoad? i = some value ∧
      (declared ≠ .boxed .boolean → primLoad? kind value = some i) := by
  obtain ⟨i, hi⟩ := Option.isSome_iff_exists.mp (prim?_eq_some_iff.mp hvalue)
  have hdecode := decodeLoad?_of_primLoad? hi
  unfold load
  split
  · cases hvalue
  · next b k =>
    cases hkind
    cases hvalue
    exact ⟨_, [], rfl, .inl rfl, congrArg (Option.map Literal.boolean) (loadedTruth?_sharedBox b),
      fun h => absurd rfl h⟩
  · cases hkind
    rw [hi]
    exact ⟨i, [], rfl, .inl rfl, hdecode, fun _ => rfl⟩
  · cases hkind
    rw [hi]
    exact ⟨i, _, rfl, .inr rfl, hdecode, fun _ => rfl⟩
  · next hprimitive hboxed _ =>
    cases declared with
    | primitive k => exact absurd rfl (hprimitive k)
    | boxed k => exact absurd rfl (hboxed k)
    | named name => cases hkind
    | array component => cases hkind

end Literal

/-- A literal that is pushed under its own kind or under the box of it is loaded by one
instruction, boxed afterwards if need be, and the instruction determines the literal: it is read
back from it, so that no other literal of the kind, under either type, has the same load.  An
int has the shortest load, and a floating-point value a dedicated one exactly if it is the zero
without a sign, by its bits, or 1 or 2 by comparison. -/
theorem pushLiteral_exact {value : Literal} {declared : ValueType} {kind : Prim}
    (hkind : declared.unbox = .primitive kind) (hvalue : value.prim? = some kind) (c : Context)
    (s : State) :
    ∃ after load boxing, (Op.pushLiteral value declared).run c s = .ok () after ∧
      after.entries = declared :: s.entries ∧
      after.code.toList = s.code.toList ++ load :: boxing ∧
      (boxing = [] ∨ boxing = [.box kind]) ∧
      kind.decodeLoad? load = some value ∧
      (∀ n, value.number? = some n → declared ≠ .boxed .boolean → load.IsShortest n) ∧
      (∀ x, value = .float x → load.IsFloatLoad x) ∧
      (∀ x, value = .double x → load.IsDoubleLoad x) ∧
      ∀ value' declared' c' s' after' boxing', ValueType.unbox declared' = .primitive kind →
        Literal.prim? value' = some kind →
        (Op.pushLiteral value' declared').run c' s' = .ok () after' →
        after'.code.toList = s'.code.toList ++ load :: boxing' → value' = value := by
  obtain ⟨load, boxing, hload, hboxing, hdecode, hprim⟩ := Literal.exists_load hkind hvalue
  have hrun := Op.run_pushLiteral c s value declared
  rw [hload] at hrun
  -- Only a truth value has a shared box, so the load of a fraction is that of the primitive.
  have hfraction : kind ≠ .boolean → Literal.primLoad? kind value = some load := by
    intro hne
    apply hprim
    rintro rfl
    exact hne (ValueType.primitive.inj hkind).symm
  refine ⟨_, load, boxing, hrun, rfl, by simp, hboxing, hdecode, ?_, ?_, ?_, ?_⟩
  · intro n hn hdeclared
    exact Literal.isShortest_of_primLoad? (hprim hdeclared) hn
  · rintro x rfl
    cases hvalue
    cases hfraction (by decide)
    exact Literal.isFloatLoad_floatLoad x
  · rintro x rfl
    cases hvalue
    cases hfraction (by decide)
    exact Literal.isDoubleLoad_doubleLoad x
  · intro value' declared' c' s' after' boxing' hkind' hvalue' hrun' hcode
    obtain ⟨load', _, hload', -, hdecode', -⟩ := Literal.exists_load hkind' hvalue'
    have hother := Op.run_pushLiteral c' s' value' declared'
    rw [hload'] at hother
    cases hrun'.symm.trans hother
    rw [State.code_withEntries, State.toList_code_appending] at hcode
    obtain ⟨rfl, -⟩ := List.cons.inj (List.append_cancel_left hcode)
    exact Option.some.inj (hdecode'.symm.trans hdecode)

/-- The zero with a sign is loaded from the pool, with its sign, and boxed. -/
theorem pushLiteral_exact_negative_zero :
    ∃ after, (Op.pushLiteral (.float ⟨0x80000000⟩) (.boxed .float)).run
        ⟨.empty, .standard, ⟨"", "", ""⟩⟩ .initial = .ok () after ∧
      after.code.toList = [.poolConst (.float ⟨0x80000000⟩), .box .float] ∧
      Prim.decodeLoad? .float (.poolConst (.float ⟨0x80000000⟩)) =
        some (.float ⟨0x80000000⟩) := by
  have hkind : (ValueType.boxed .float).unbox = .primitive .float := rfl
  have hvalue : Literal.prim? (.float ⟨0x80000000⟩) = some .float := rfl
  obtain ⟨after, load, boxing, hrun, -, hcode, -, hdecode, -⟩ :=
    pushLiteral_exact hkind hvalue ⟨.empty, .standard, ⟨"", "", ""⟩⟩ .initial
  have hloaded : after.code.toList = [.poolConst (.float ⟨0x80000000⟩), .box .float] := by
    cases hrun
    rfl
  obtain ⟨rfl, -⟩ := List.cons.inj (hloaded.symm.trans hcode)
  exact ⟨after, hrun, hloaded, hdecode⟩

end Lockstep
