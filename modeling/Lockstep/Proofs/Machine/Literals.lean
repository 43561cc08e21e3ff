import Lockstep.Proofs.Machine.Runs
import Lockstep.Proofs.Stack.Calls

/-!
# Literals under primitive types and their boxes

A literal that is declared as a primitive or as the box of one goes onto the stack if it
is of just that kind, or if it is null; any other is refused before anything is emitted.
But for one: a truth value goes under every box, as one of the two shared boxes of
`boolean`, whatever box it is declared as.

`Leaves` says of which type the value is that the code of a literal leaves, by what the
instructions are and not by what the model says.  `pushLiteral_of_unbox` puts the two
together: the model has the type of the value, except for a truth value under the box of
another kind.
-/

namespace Lockstep

/-! ## What a load leaves -/

/-- The int that an instruction loads. -/
def Instr.loadedInt? : Instr → Option Int
  | .intConst v | .bytePush v => some v.toInt
  | .shortPush v => some v.toInt
  | .poolConst (.int v) => some v.toInt
  | _ => none

/-- The ints that are values of a kind; the wide kinds and the fractions are no ints. -/
def Prim.Holds : Prim → Int → Prop
  | .boolean, n => n = 0 ∨ n = 1
  | .byte, n => -128 ≤ n ∧ n ≤ 127
  | .char, n => 0 ≤ n ∧ n ≤ 65535
  | .short, n => -32768 ≤ n ∧ n ≤ 32767
  | .int, n => -2147483648 ≤ n ∧ n ≤ 2147483647
  | .long, _ | .float, _ | .double, _ => False

/-- Code leaves a value of a type.  An int is of every kind that holds it; of the other
kinds the machine tells the values apart; a box is of the kind of what is put in it; and
a field has the type that it is declared with. -/
inductive Leaves : List Instr → ValueType → Prop
  | null : Leaves [.nullConst] .object
  | int {i : Instr} {kind : Prim} {n : Int} (hint : i.loadedInt? = some n) (hholds : kind.Holds n) :
      Leaves [i] (.primitive kind)
  | other {i : Instr} {kind : Prim} (hsignature : i.signature? = some ([], [.ofPrim kind]))
      (hkind : Carrier.ofPrim kind ≠ .int) : Leaves [i] (.primitive kind)
  | box {code : List Instr} {kind : Prim} (h : Leaves code (.primitive kind)) :
      Leaves (code ++ [.box kind]) (.boxed kind)
  | field (f : Field) : Leaves [.getStatic f] f.type

namespace Literal

variable {value : Literal} {declared t : ValueType} {kind : Prim} {code : List Instr}

/-- The shortest load of an int is a load of that int. -/
theorem loadedInt?_intLoad (n : Int32) : (intLoad n).loadedInt? = some n.toInt := by
  have hbyte : -128 ≤ n.toInt ∧ n.toInt ≤ 127 → n.toInt8.toInt = n.toInt := by
    intro hrange
    rw [Int32.toInt_toInt8]
    exact Int.bmod_eq_of_le (by omega) (by omega)
  have hshort : -32768 ≤ n.toInt ∧ n.toInt ≤ 32767 → n.toInt16.toInt = n.toInt := by
    intro hrange
    rw [Int32.toInt_toInt16]
    exact Int.bmod_eq_of_le (by omega) (by omega)
  unfold intLoad
  dsimp only
  split
  · exact congrArg some (hbyte (by omega))
  · split
    · exact congrArg some (hbyte ‹_›)
    · split
      · exact congrArg some (hshort ‹_›)
      · rfl

/-- A code unit is not negative as an int. -/
theorem toInt_unit (unit : UInt16) : unit.toUInt32.toInt32.toInt = unit.toNat := by
  have hlt := unit.toNat_lt
  show unit.toUInt32.toBitVec.toInt = _
  rw [BitVec.toInt_eq_toNat_of_lt, UInt32.toNat_toBitVec, UInt16.toNat_toUInt32]
  rw [UInt32.toNat_toBitVec, UInt16.toNat_toUInt32]
  omega

/-- A literal is loaded as a value of its kind. -/
theorem leaves_of_primLoad? {i : Instr} (h : primLoad? kind value = some i) :
    Leaves [i] (.primitive kind) := by
  have hint : ∀ (n : Int32) (kind : Prim), kind.Holds n.toInt →
      Leaves [intLoad n] (.primitive kind) := fun n kind hholds =>
    .int (loadedInt?_intLoad n) hholds
  unfold primLoad? at h
  split at h
  · next b =>
    cases h
    cases b with
    | false => exact .int rfl (.inl rfl)
    | true => exact .int rfl (.inr rfl)
  · next n =>
    cases h
    have hle := n.le_toInt
    have hlt := n.toInt_lt
    exact hint _ .byte (by rw [Int8.toInt_toInt32]; exact ⟨by omega, by omega⟩)
  · next unit =>
    cases h
    have hlt := unit.toNat_lt
    exact hint _ .char (by rw [toInt_unit]; exact ⟨by omega, by omega⟩)
  · next n =>
    cases h
    have hle := n.le_toInt
    have hlt := n.toInt_lt
    exact hint _ .short (by rw [Int16.toInt_toInt32]; exact ⟨by omega, by omega⟩)
  · next n =>
    cases h
    have hle := n.le_toInt
    have hlt := n.toInt_lt
    exact hint n .int ⟨by omega, by omega⟩
  · cases h
    exact .other (loads_longLoad _).signature (by decide)
  · cases h
    exact .other (loads_floatLoad _).signature (by decide)
  · cases h
    exact .other (loads_doubleLoad _).signature (by decide)
  · cases h

/-- One of the shared boxes is of no kind but `boolean`. -/
theorem eq_of_leaves_sharedBox {b : Bool} (h : Leaves [.getStatic (sharedBox b)] t) :
    t = .boxed .boolean := by
  generalize hcode : [Instr.getStatic (sharedBox b)] = code at h
  cases h with
  | null => cases hcode
  | int hint hholds =>
      cases hcode
      cases hint
  | @other i kind hsignature hkind =>
      cases hcode
      cases kind <;> cases hsignature
  | box h =>
      have hlast := congrArg List.getLast? hcode
      rw [List.getLast?_concat] at hlast
      cases hlast
  | field f =>
      cases hcode
      rfl

/-! ## What is accepted -/

theorem hasLoad_iff (hkind : declared.unbox = .primitive kind) :
    value.hasLoad declared = true ↔
      value.prim? = some kind ∨ declared = .boxed kind ∧ value.prim? = some .boolean := by
  cases declared with
  | primitive k =>
      cases hkind
      simp [hasLoad]
  | boxed k =>
      cases hkind
      simp [hasLoad]
  | named name => cases hkind
  | array component => cases hkind

/-- The code leaves a value of the type that the model has, unless it loads a shared box
under the box of another kind. -/
theorem leaves_iff_of_load (hkind : declared.unbox = .primitive kind)
    (hload : value.load declared = .ok (code, t)) :
    Leaves code t ↔ value = .null ∨ value.prim? = some kind := by
  -- where the load of the primitive kind decides, the literal is of that kind
  have hprim : ∀ {i : Instr}, primLoad? kind value = some i →
      (Leaves code t → value = .null ∨ value.prim? = some kind) := fun hsome _ =>
    .inr (prim?_eq_some_iff.mpr (by rw [hsome]; rfl))
  unfold load at hload
  split at hload
  · cases hload
    exact ⟨fun _ => .inl rfl, fun _ => .null⟩
  · next b k =>
    cases hload
    cases hkind
    constructor
    · intro h
      cases eq_of_leaves_sharedBox h
      exact .inr rfl
    · intro h
      rcases h with h | h
      · cases h
      · cases h
        exact .field _
  · next k _ =>
    cases hkind
    split at hload
    · next i hsome =>
      cases hload
      exact ⟨hprim hsome, fun _ => leaves_of_primLoad? hsome⟩
    · cases hload
  · next k _ _ =>
    cases hkind
    split at hload
    · next i hsome =>
      cases hload
      exact ⟨hprim hsome, fun _ => .box (leaves_of_primLoad? hsome)⟩
    · cases hload
  · next hprimitive hboxed _ =>
    cases declared with
    | primitive k => exact absurd rfl (hprimitive k)
    | boxed k => exact absurd rfl (hboxed k)
    | named name => cases hkind
    | array component => cases hkind

end Literal

/-- Under a primitive or its box a literal of just that kind is loaded, and null, and under
a box every truth value; any other is refused, and nothing is emitted or pushed.  The entry
is the declared type, and that of the root for null, and the code leaves a value of this
type, except for a truth value under the box of another kind. -/
theorem pushLiteral_of_unbox {declared : ValueType} {kind : Prim}
    (hkind : declared.unbox = .primitive kind) (value : Literal) (c : Context) (s : State) :
    ((value = .null ∨ value.prim? = some kind ∨
        declared = .boxed kind ∧ value.prim? = some .boolean) →
      ∃ after code, (Op.pushLiteral value declared).run c s = .ok () after ∧
        after.code.toList = s.code.toList ++ code ∧
        after.entries = (if value = .null then .object else declared) :: s.entries ∧
        (Leaves code (if value = .null then .object else declared) ↔
          value = .null ∨ value.prim? = some kind)) ∧
      (¬ (value = .null ∨ value.prim? = some kind ∨
          declared = .boxed kind ∧ value.prim? = some .boolean) →
        (Op.pushLiteral value declared).run c s =
          .error (s.failure c (.constantTypeMismatch value.text declared)) s) := by
  have hrun := Op.run_pushLiteral c s value declared
  have hrefusal : Call.literalRefusal value declared =
      if value = .null ∨ value.hasLoad declared then none
      else some (.constantTypeMismatch value.text declared) := by
    cases declared with
    | primitive k => rfl
    | boxed k => rfl
    | named name => cases hkind
    | array component => cases hkind
  rw [← Literal.hasLoad_iff hkind]
  constructor
  · intro haccepted
    rw [if_pos haccepted] at hrefusal
    rcases value.loadsOrRefused declared with ⟨code, hload, -⟩ | ⟨fault, -, hrefused⟩
    · rw [hload] at hrun
      exact ⟨_, code, hrun, by simp, rfl, Literal.leaves_iff_of_load hkind hload⟩
    · rw [hrefusal] at hrefused
      cases hrefused
  · intro hother
    rw [if_neg hother] at hrefusal
    rcases value.loadsOrRefused declared with ⟨code, -, hrefused⟩ | ⟨fault, hload, hrefused⟩
    · rw [hrefusal] at hrefused
      cases hrefused
    · rw [hrefusal] at hrefused
      cases hrefused
      rw [hload] at hrun
      exact hrun

/-- An int goes under its box, and what is loaded and boxed is an int. -/
theorem pushLiteral_of_unbox_int :
    ∃ after, (Op.pushLiteral (.int 7) (.boxed .int)).run bareContext .initial = .ok () after ∧
      after.entries = [.boxed .int] ∧ Leaves after.code.toList (.boxed .int) := by
  have hkind : (ValueType.boxed .int).unbox = .primitive .int := rfl
  obtain ⟨haccepted, -⟩ := pushLiteral_of_unbox hkind (.int 7) bareContext .initial
  obtain ⟨after, code, hrun, hcode, hentries, hleaves⟩ := haccepted (.inr (.inl rfl))
  have hall : after.code.toList = code := hcode
  refine ⟨after, hrun, hentries, ?_⟩
  rw [hall]
  exact hleaves.mpr (.inr rfl)

/-- A truth value goes under the box of `int` too, and what is loaded is no such box. -/
theorem pushLiteral_of_unbox_truth :
    ∃ after, (Op.pushLiteral (.boolean true) (.boxed .int)).run bareContext .initial =
        .ok () after ∧
      after.entries = [.boxed .int] ∧
      after.code.toList = [.getStatic (Literal.sharedBox true)] ∧
      Literal.prim? (.boolean true) ≠ some .int ∧ ¬ Leaves after.code.toList (.boxed .int) := by
  refine ⟨_, rfl, rfl, rfl, by decide, fun h => ?_⟩
  cases Literal.eq_of_leaves_sharedBox h

end Lockstep
