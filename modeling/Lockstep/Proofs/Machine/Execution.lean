import Mathlib.Logic.Relation
import Lockstep.Proofs.Decimal.Comparison
import Lockstep.Proofs.Flow.Fragments
import Lockstep.Proofs.Machine.Words

/-!
# Executing code

What the machine does when it runs, and not only what it can do: a conditional jump looks at
the value that it takes, and control goes one way.

A slot holds a word of 32 bits, or a reference (`Slot`); a value with 64 bits is in two
slots, half in each.  `Instr.compute` is what an instruction other than a jump makes of the
slots, for the instructions that tests of truth are made of; those that only move words do
so by `Instr.onWords`.  `Steps` is one step of the machine in a piece of code, and `Executes`
says that the machine starts at the first instruction and runs off the end.

## Strategy

No step leaves a choice if no label is marked twice (`Steps.unique`), and there is none at
the end.  So one way through is enough: whatever the machine has done, it goes on to the
end of that way (`Executes.of_reached`).  Ways are put together like the pieces of code
that they lead through (`Executes.append`).
-/

namespace Lockstep

open Lockstep.Decimal Lockstep.Flow

/-! ## Slots -/

/-- The content of a slot: a word, or a reference to an object or to none. -/
inductive Slot (ρ : Type) where
  | word (bits : BitVec 32)
  | reference (object : Option ρ)

variable {ρ : Type}

namespace Slot

/-- The slots of a value with 64 bits, with the lower half on top. -/
def wide (bits : BitVec 64) : List (Slot ρ) :=
  [.word (bits.extractLsb' 0 32), .word (bits.extractLsb' 32 32)]

/-- A truth value as an int. -/
def truth (b : Bool) : Slot ρ := .word (if b then 1 else 0)

end Slot

/-- The two halves make up the whole. -/
theorem append_halves (bits : BitVec 64) :
    bits.extractLsb' 32 32 ++ bits.extractLsb' 0 32 = bits := by
  ext i hi
  rw [BitVec.getElem_append]
  split
  · rw [BitVec.getElem_extractLsb', Nat.zero_add, BitVec.getLsbD_eq_getElem hi]
  · have hsum : 32 + (i - 32) = i := by omega
    rw [BitVec.getElem_extractLsb', hsum, BitVec.getLsbD_eq_getElem hi]

/-! ## Instructions -/

/-- The int that a comparison leaves. -/
def orderWord : Ordering → BitVec 32
  | .lt => -1
  | .eq => 0
  | .gt => 1

theorem orderWord_eq_zero_iff {order : Ordering} : orderWord order = 0 ↔ order = .eq := by
  cases order <;> decide

namespace Method

/-- The method of the platform that asks whether a `float` is no number. -/
def floatIsNaN : Method :=
  ⟨.static, "java/lang/Float", "isNaN", [.primitive .float], some (.primitive .boolean)⟩

/-- The method of the platform that asks whether a `double` is no number. -/
def doubleIsNaN : Method :=
  ⟨.static, "java/lang/Double", "isNaN", [.primitive .double], some (.primitive .boolean)⟩

/-- What the two methods make of the slots. -/
def answer (m : Method) : List (Slot ρ) → Option (List (Slot ρ))
  | .word low :: rest =>
    if m = floatIsNaN then some (.truth (Binary32.decode ⟨⟨low⟩⟩).isNaN :: rest)
    else if m = doubleIsNaN then
      match rest with
      | .word high :: rest => some (.truth (Binary64.decode ⟨⟨high ++ low⟩⟩).isNaN :: rest)
      | _ => none
    else none
  | _ => none

theorem answer_floatIsNaN (x : Binary32) (rest : List (Slot ρ)) :
    floatIsNaN.answer (.word x.bits.toBitVec :: rest) = some (.truth x.decode.isNaN :: rest) := rfl

theorem answer_doubleIsNaN (x : Binary64) (rest : List (Slot ρ)) :
    doubleIsNaN.answer (Slot.wide x.bits.toBitVec ++ rest) =
      some (.truth x.decode.isNaN :: rest) := by
  show some (Slot.truth (Binary64.decode ⟨⟨_ ++ _⟩⟩).isNaN :: rest) = _
  rw [append_halves]

end Method

/-- What an instruction other than a jump makes of the slots, the top first. -/
def Instr.compute : Instr → List (Slot ρ) → Option (List (Slot ρ))
  | .intConst n, slots => some (.word n.toInt32.toBitVec :: slots)
  | .longZero, slots | .doubleZero, slots => some (Slot.wide 0 ++ slots)
  | .floatZero, slots => some (.word 0 :: slots)
  | .compareLong, .word low' :: .word high' :: .word low :: .word high :: rest =>
    some (.word (orderWord (cmp (high ++ low).toInt (high' ++ low').toInt)) :: rest)
  | .compareFloat, .word bits' :: .word bits :: rest =>
    let order := (Binary32.decode ⟨⟨bits⟩⟩).compare (Binary32.decode ⟨⟨bits'⟩⟩)
    some (.word (orderWord order) :: rest)
  | .compareDouble, .word low' :: .word high' :: .word low :: .word high :: rest =>
    let order :=
      (Binary64.decode ⟨⟨high ++ low⟩⟩).compare (Binary64.decode ⟨⟨high' ++ low'⟩⟩)
    some (.word (orderWord order) :: rest)
  | .invoke m, slots => m.answer slots
  | .mark _, slots => some slots
  | i, slots => i.onWords slots

namespace Instr

theorem compute_compareLong (x y : BitVec 64) (rest : List (Slot ρ)) :
    compareLong.compute (Slot.wide y ++ (Slot.wide x ++ rest)) =
      some (.word (orderWord (cmp x.toInt y.toInt)) :: rest) := by
  show some (Slot.word (orderWord (cmp (_ ++ _ : BitVec (32 + 32)).toInt
    (_ ++ _ : BitVec (32 + 32)).toInt)) :: rest) = _
  rw [append_halves, append_halves]

theorem compute_compareFloat (x y : Binary32) (rest : List (Slot ρ)) :
    compareFloat.compute (.word y.bits.toBitVec :: .word x.bits.toBitVec :: rest) =
      some (.word (orderWord (x.decode.compare y.decode)) :: rest) := rfl

theorem compute_compareDouble (x y : Binary64) (rest : List (Slot ρ)) :
    compareDouble.compute (Slot.wide y.bits.toBitVec ++ (Slot.wide x.bits.toBitVec ++ rest)) =
      some (.word (orderWord (x.decode.compare y.decode)) :: rest) := by
  show some (Slot.word (orderWord ((Binary64.decode ⟨⟨_ ++ _⟩⟩).compare
    (Binary64.decode ⟨⟨_ ++ _⟩⟩))) :: rest) = _
  rw [append_halves, append_halves]

end Instr

/-- Whether a conditional jump is taken on a value, if it can look at it. -/
def Cond.holds? : Cond → Slot ρ → Option Bool
  | .isZero, .word bits => some (bits = 0)
  | .isNonzero, .word bits => some (bits ≠ 0)
  | .isNull, .reference object => some object.isNone
  | .isNonnull, .reference object => some object.isSome
  | _, _ => none

/-- What an instruction makes of the slots, and the label that it goes to, if it does not go
on to the next position. -/
def Instr.execute : Instr → List (Slot ρ) → Option (Option Label × List (Slot ρ))
  | .goto label, slots => some (some label, slots)
  | .jump cond label, top :: rest =>
    (cond.holds? top).map fun holds => (if holds then some label else none, rest)
  | i, slots => (i.compute slots).map fun after => (none, after)

theorem Instr.execute_of_compute {i : Instr} {slots after : List (Slot ρ)}
    (htarget : i.target? = none) (h : i.compute slots = some after) :
    i.execute slots = some (none, after) := by
  cases i with
  | jump cond label => cases htarget
  | goto label => cases htarget
  | _ => simp [execute, h]

/-! ## Steps -/

/-- Where the machine is in a piece of code, and its slots, the top first. -/
structure Config (ρ : Type) where
  position : Nat
  slots : List (Slot ρ)

/-- One step of the machine. -/
inductive Steps (code : List Instr) : Config ρ → Config ρ → Prop
  | falls {p : Nat} {i : Instr} {slots after : List (Slot ρ)} (hi : code[p]? = some i)
      (h : i.execute slots = some (none, after)) : Steps code ⟨p, slots⟩ ⟨p + 1, after⟩
  | jumps {p q : Nat} {i : Instr} {label : Label} {slots after : List (Slot ρ)}
      (hi : code[p]? = some i) (h : i.execute slots = some (some label, after))
      (hq : code[q]? = some (.mark label)) : Steps code ⟨p, slots⟩ ⟨q, after⟩

/-- The machine starts at the first instruction and runs off the end. -/
def Executes (code : List Instr) (slots after : List (Slot ρ)) : Prop :=
  Relation.ReflTransGen (Steps code) ⟨0, slots⟩ ⟨code.length, after⟩

variable {code a b : List Instr} {slots middle after : List (Slot ρ)} {x y z : Config ρ}

theorem Steps.exists_instr (h : Steps code x y) : ∃ i, code[x.position]? = some i := by
  cases h with
  | falls hi => exact ⟨_, hi⟩
  | jumps hi => exact ⟨_, hi⟩

/-- A conditional jump goes where the value that it takes says. -/
theorem Steps.jump {p q : Nat} {cond : Cond} {label : Label} {top : Slot ρ} {rest : List (Slot ρ)}
    {holds : Bool} (hi : code[p]? = some (.jump cond label)) (hq : code[q]? = some (.mark label))
    (hholds : cond.holds? top = some holds) :
    Steps code ⟨p, top :: rest⟩ ⟨if holds then q else p + 1, rest⟩ := by
  cases holds with
  | false => exact .falls hi (by simp [Instr.execute, hholds])
  | true => exact .jumps hi (by simp [Instr.execute, hholds]) hq

/-- Nothing follows the end. -/
theorem not_steps_end : ¬ Steps code ⟨code.length, slots⟩ y := by
  intro h
  obtain ⟨i, hi⟩ := h.exists_instr
  exact absurd (lt_length_of_getElem? hi) (Nat.lt_irrefl _)

/-- The instruction and the slots determine the step. -/
theorem Steps.unique (hlabels : WellLabelled code) (hy : Steps code x y) (hz : Steps code x z) :
    y = z := by
  have same : ∀ {p : Nat} {i j : Instr} {slots : List (Slot ρ)} {r r' : Option Label × _},
      code[p]? = some i → code[p]? = some j → i.execute slots = some r →
        j.execute slots = some r' → r = r' := by
    intro p i j slots r r' hi hj h h'
    obtain rfl : i = j := Option.some.inj (hi.symm.trans hj)
    exact Option.some.inj (h.symm.trans h')
  cases hy with
  | falls hi h =>
      cases hz with
      | falls hj h' =>
          cases same hi hj h h'
          rfl
      | jumps hj h' => cases same hi hj h h'
  | jumps hi h hq =>
      cases hz with
      | falls hj h' => cases same hi hj h h'
      | jumps hj h' hq' =>
          cases same hi hj h h'
          rw [position_eq_of_nodup_marks hlabels.distinct hq hq']

/-- There is one way through, so that the machine, wherever it is on it, goes on to the
end. -/
theorem Executes.of_reached (hlabels : WellLabelled code) (h : Executes code slots after)
    (hx : Relation.ReflTransGen (Steps code) ⟨0, slots⟩ x) :
    Relation.ReflTransGen (Steps code) x ⟨code.length, after⟩ := by
  have hunique : Relator.RightUnique (Steps (ρ := ρ) code) := fun _ _ _ => Steps.unique hlabels
  rcases Relation.ReflTransGen.total_of_right_unique hunique hx h with hends | hends
  · exact hends
  · rcases hends.cases_head with rfl | ⟨y, hstep, -⟩
    · exact .refl
    · exact absurd hstep not_steps_end

/-! ## Concatenation -/

theorem Steps.append_left (h : Steps a x y) : Steps (a ++ b) x y := by
  have hleft : ∀ {p : Nat} {i : Instr}, a[p]? = some i → (a ++ b)[p]? = some i := by
    intro p i hi
    rw [List.getElem?_append_left (lt_length_of_getElem? hi), hi]
  cases h with
  | falls hi h => exact .falls (hleft hi) h
  | jumps hi h hq => exact .jumps (hleft hi) h (hleft hq)

theorem Steps.append_right (h : Steps b x y) :
    Steps (a ++ b) ⟨a.length + x.position, x.slots⟩ ⟨a.length + y.position, y.slots⟩ := by
  cases h with
  | falls hi h => exact .falls (by rw [getElem?_append_add, hi]) h
  | jumps hi h hq =>
      exact .jumps (by rw [getElem?_append_add, hi]) h (by rw [getElem?_append_add, hq])

/-- The second piece starts where the first one ends. -/
theorem Executes.append (ha : Executes a slots middle) (hb : Executes b middle after) :
    Executes (a ++ b) slots after := by
  have hfirst : Relation.ReflTransGen (Steps (a ++ b)) ⟨0, slots⟩ ⟨a.length, middle⟩ :=
    ha.lift id fun _ _ => Steps.append_left
  have hsecond := hb.lift (fun x => (⟨a.length + x.position, x.slots⟩ : Config ρ))
    fun _ _ h => Steps.append_right (a := a) h
  rw [Executes, List.length_append]
  exact hfirst.trans hsecond

/-- Code without jumps is executed one instruction after the other. -/
theorem Executes.of_runs (hstraight : Straight code) (h : runs Instr.compute code slots = some after) :
    Executes code slots after := by
  induction code generalizing slots with
  | nil =>
      obtain rfl : slots = after := Option.some.inj h
      exact .refl
  | cons i rest ih =>
      obtain ⟨middle, hcompute, hrest⟩ := Option.bind_eq_some_iff.mp h
      have htarget := (hstraight i List.mem_cons_self).1
      have hfirst : Executes [i] slots middle :=
        .single (.falls rfl (Instr.execute_of_compute htarget hcompute))
      exact hfirst.append (ih (fun j hj => hstraight j (List.mem_cons_of_mem i hj)) hrest)

end Lockstep
