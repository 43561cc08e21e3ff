import Lockstep.Proofs.Decimal.Significands
import Lockstep.Proofs.Machine.Integers
import Lockstep.Proofs.Classes.Subtyping

/-!
# Warnings about lost precision

An implicit conversion to `float` warns whatever kind of integer is on top
(`cast_warns`).  It can change the number of an integer for two kinds only, `int` and `long`
(`Integral.rounds_iff`): all integers of the other three have a significand of 24 bits, and
so are numbers of values of the target (`Integral.rounds_iff_exists`).  So the warning about
a `byte`, a `char` or a `short` is about nothing, and these three are the only cases in which
to warn and to be able to round are not the same.

A conversion warns in one place only.  It does not get there if the value can stay as it is,
if one of the two types is a reference, or if there are no instructions between the two
kinds; and none of these is the case for an integer and `float`
(`Context.warnings_conversionNotes`).  An explicit conversion never warns.
-/

namespace Lockstep

open Lockstep.Decimal

/-! ## Kinds with integers that round -/

namespace Integral

variable {k : Integral}

/-- A kind has integers that a significand of 24 bits cannot hold. -/
def Rounds (k : Integral) : Prop := ∃ v : k.Value, ¬ FitsSignificand 24 (k.number v)

/-- An integer is less than the number of words of its kind, whatever its sign. -/
theorem natAbs_number_lt (v : k.Value) : (k.number v).natAbs < 2 ^ k.bits := by
  cases k with
  | byte =>
      have hle : -128 ≤ byte.number v := Int8.le_toInt v
      have hlt : byte.number v < 128 := Int8.toInt_lt v
      show (byte.number v).natAbs < 256
      omega
  | char =>
      have hlt := UInt16.toNat_lt v
      exact hlt
  | short =>
      have hle : -32768 ≤ short.number v := Int16.le_toInt v
      have hlt : short.number v < 32768 := Int16.toInt_lt v
      show (short.number v).natAbs < 65536
      omega
  | int =>
      have hle : -2147483648 ≤ int.number v := Int32.le_toInt v
      have hlt : int.number v < 2147483648 := Int32.toInt_lt v
      show (int.number v).natAbs < 4294967296
      omega
  | long =>
      have hle : -9223372036854775808 ≤ long.number v := Int64.le_toInt v
      have hlt : long.number v < 9223372036854775808 := Int64.toInt_lt v
      show (long.number v).natAbs < 18446744073709551616
      omega

theorem natAbs_number_lt_of_bits_le {p : Nat} (h : k.bits ≤ p) (v : k.Value) :
    (k.number v).natAbs < 2 ^ p :=
  lt_of_lt_of_le (natAbs_number_lt v) (Nat.pow_le_pow_right two_pos h)

/-- `2 ^ 24 + 1` is an `int` and a `long`, and odd. -/
theorem rounds_iff : k.Rounds ↔ k = .int ∨ k = .long := by
  constructor
  · rintro ⟨v, hv⟩
    by_contra hk
    obtain ⟨hint, hlong⟩ := not_or.mp hk
    have hbits : k.bits ≤ 24 := by
      cases k with
      | int => exact absurd rfl hint
      | long => exact absurd rfl hlong
      | _ => decide
    exact hv (fitsSignificand_of_lt (natAbs_number_lt_of_bits_le hbits v))
  · have hodd : ¬ FitsSignificand 24 16777217 := by
      rw [fitsSignificand_iff_of_odd (by decide)]
      decide
    rintro (rfl | rfl)
    · exact ⟨(16777217 : Int32), hodd⟩
    · exact ⟨(16777217 : Int64), hodd⟩

/-- The integers that round are those that are the number of no value of the target. -/
theorem rounds_iff_exists :
    k.Rounds ↔ ∃ v : k.Value, ∀ x : Binary32, x.decode.number? ≠ some (.ofRat (k.number v)) := by
  apply exists_congr
  intro v
  have hbits : k.bits ≤ 128 := by cases k <;> decide
  rw [← Binary32.exists_number?_iff (natAbs_number_lt_of_bits_le hbits v), not_exists]

theorem mayLosePrecision_iff {kind : Prim} :
    kind.mayLosePrecision .float = true ↔ ∃ k : Integral, kind = k.prim := by
  constructor
  · intro h
    cases kind with
    | byte => exact ⟨.byte, rfl⟩
    | char => exact ⟨.char, rfl⟩
    | short => exact ⟨.short, rfl⟩
    | int => exact ⟨.int, rfl⟩
    | long => exact ⟨.long, rfl⟩
    | _ => cases h
  · rintro ⟨k, rfl⟩
    cases k <;> rfl

end Integral

/-! ## Warnings -/

/-- The notes of the highest level. -/
def Note.isWarning (n : Note) : Bool := n.level = .warn

def State.warnings (s : State) : List Note := s.notes.toList.filter Note.isWarning

/-- The state that an operation leaves, whether it succeeds or fails. -/
def Op.after {α : Type} (op : Op α) (c : Context) (s : State) : State :=
  match op.run c s with
  | .ok _ after => after
  | .error _ after => after

namespace State

variable (s : State)

@[simp]
theorem warnings_withEntries (ts : List ValueType) : (s.withEntries ts).warnings = s.warnings := rfl

@[simp]
theorem warnings_noting (ns : List Note) :
    (s.noting ns).warnings = s.warnings ++ ns.filter Note.isWarning := by
  simp [noting, warnings]

/-- To emit an instruction is no reason to warn. -/
@[simp]
theorem warnings_appending (c : Context) (is : List Instr) :
    (s.appending c is).warnings = s.warnings := by
  have hnone : (s.emissionNotes c is).filter Note.isWarning = [] := by
    rw [List.filter_eq_nil_iff]
    intro n hn
    unfold emissionNotes at hn
    split at hn
    · obtain ⟨i, -, rfl⟩ := List.mem_map.mp hn
      exact Bool.false_ne_true
    · cases hn
  simp [appending, warnings, hnone]

end State

/-! ## The one place in which a conversion warns -/

/-- The warnings about an implicit conversion. -/
def precisionNotes (source target : ValueType) : List Note :=
  match source, target with
  | .primitive a, .primitive b => if a.mayLosePrecision b then [.lossy a b] else []
  | _, _ => []

theorem precisionNotes_integral (k : Integral) :
    precisionNotes (.primitive k.prim) (.primitive .float) = [.lossy k.prim .float] :=
  if_pos (Integral.mayLosePrecision_iff.mpr ⟨k, rfl⟩)

theorem precisionNotes_ne_nil_iff {source target : ValueType} :
    precisionNotes source target ≠ [] ↔
      ∃ k : Integral, source = .primitive k.prim ∧ target = .primitive .float := by
  constructor
  · intro h
    unfold precisionNotes at h
    split at h
    · next a b =>
      split at h
      · next hlossy =>
        obtain rfl : b = .float := by
          simp only [Prim.mayLosePrecision, Bool.and_eq_true, decide_eq_true_eq] at hlossy
          exact hlossy.1
        obtain ⟨k, rfl⟩ := Integral.mayLosePrecision_iff.mp hlossy
        exact ⟨k, rfl, rfl⟩
      · exact absurd rfl h
    · exact absurd rfl h
  · rintro ⟨k, rfl, rfl⟩
    rw [precisionNotes_integral]
    exact List.cons_ne_nil _ _

/-- No integer is compatible with `float`. -/
theorem precisionNotes_of_isCompatible {r : Registry} {source target : ValueType}
    (h : source = target ∨ r.isCompatible source target = true) :
    precisionNotes source target = [] := by
  by_contra hne
  obtain ⟨k, rfl, rfl⟩ := precisionNotes_ne_nil_iff.mp hne
  have hsame : ValueType.primitive k.prim = .primitive .float := by
    rcases h with heq | hcompatible
    · exact heq
    · exact Registry.eq_of_isSubtype_primitive (Registry.isSubtype_of_isCompatible hcompatible)
  cases k <;> cases hsame

namespace Context

theorem warnings_implicitNotes (source target : ValueType) :
    (implicitNotes source target).filter Note.isWarning = precisionNotes source target := by
  cases source with
  | primitive a =>
      cases target with
      | primitive b =>
          simp only [implicitNotes, precisionNotes]
          cases hconversion : a.conversion? b with
          | some ops =>
              have hnumeric : (Note.numeric a b ops).isWarning ≠ true := Bool.false_ne_true
              simp only [List.filter_cons_of_neg hnumeric]
              split <;> rfl
          | none =>
              have hquiet : a.mayLosePrecision b = false := by
                cases a <;> cases b <;> first | rfl | cases hconversion
              rw [hquiet]
              rfl
      | _ => rfl
  | _ => rfl

/-- Only implicit conversions warn. -/
theorem warnings_conversionNotes (c : Context) (source target : ValueType) (explicit : Bool) :
    (c.conversionNotes source target explicit).filter Note.isWarning =
      if explicit then [] else precisionNotes source target := by
  unfold conversionNotes
  split
  · next hcompatible =>
    rw [precisionNotes_of_isCompatible hcompatible, ite_self]
    rfl
  · cases explicit with
    | true =>
        rw [if_pos rfl]
        split <;> rfl
    | false => exact warnings_implicitNotes source target

/-! ## Casts -/

/-- An integer of a kind is on top, and a type stands for `float`. -/
def CastsToFloat (c : Context) (s : State) (target : ValueType) (k : Integral) : Prop :=
  s.entries.head? = some (.primitive k.prim) ∧ c.registry.canonical target = .primitive .float

/-- The warnings of a cast. -/
def castWarnings (c : Context) (s : State) (target : ValueType) : List Note :=
  match s.entries.head? with
  | some source => precisionNotes source (c.registry.canonical target)
  | none => []

variable {c : Context} {s : State} {target : ValueType} {j k : Integral}

theorem CastsToFloat.unique (hj : c.CastsToFloat s target j) (hk : c.CastsToFloat s target k) :
    j = k :=
  Integral.prim_injective (ValueType.primitive.inj (Option.some.inj (hj.1.symm.trans hk.1)))

theorem CastsToFloat.castWarnings_eq (h : c.CastsToFloat s target k) :
    c.castWarnings s target = [.lossy k.prim .float] := by
  rw [castWarnings, h.1, h.2]
  exact precisionNotes_integral k

theorem castWarnings_ne_nil_iff :
    c.castWarnings s target ≠ [] ↔ ∃ k, c.CastsToFloat s target k := by
  unfold castWarnings CastsToFloat
  cases s.entries.head? with
  | none => simp
  | some source => simp [precisionNotes_ne_nil_iff]

end Context

/-- The warnings of a conversion, on any stack. -/
theorem Op.warnings_convert (c : Context) (s : State) (target : ValueType) (explicit : Bool) :
    ((Op.convert target explicit).after c s).warnings =
      s.warnings ++ if explicit then [] else c.castWarnings s target := by
  cases hentries : s.entries with
  | nil => simp [after, convert, hentries, Context.castWarnings]
  | cons source rest =>
      rw [after, run_convert c s hentries]
      simp [Context.warnings_conversionNotes, Context.castWarnings, hentries]

/-- A cast warns, once, exactly if it takes an integer of any kind to `float`.  That is to
warn exactly if an integer of that kind can round, unless the integer is a `byte`, a `char` or
a `short`. -/
theorem cast_warns (c : Context) (s : State) (target : ValueType) :
    ∃ ws : List Note, ((Op.cast target).after c s).warnings = s.warnings ++ ws ∧
      (∀ k, c.CastsToFloat s target k → ws = [.lossy k.prim .float]) ∧
      (ws ≠ [] ↔ ∃ k, c.CastsToFloat s target k) ∧
      ((ws ≠ [] ↔ ∃ k, c.CastsToFloat s target k ∧ k.Rounds) ↔
        ∀ k, c.CastsToFloat s target k → k = .int ∨ k = .long) := by
  refine ⟨c.castWarnings s target, Op.warnings_convert c s target false,
    fun k hk => hk.castWarnings_eq, Context.castWarnings_ne_nil_iff, ?_⟩
  rw [Context.castWarnings_ne_nil_iff]
  constructor
  · intro h k hk
    obtain ⟨j, hj, hrounds⟩ := h.mp ⟨k, hk⟩
    rw [hk.unique hj]
    exact Integral.rounds_iff.mp hrounds
  · intro h
    constructor
    · rintro ⟨k, hk⟩
      exact ⟨k, hk, Integral.rounds_iff.mpr (h k hk)⟩
    · rintro ⟨k, hk, -⟩
      exact ⟨k, hk⟩

/-- A `byte` is cast to `float`: there is a warning, and no `byte` can round. -/
theorem cast_warns_byte :
    ¬ (((Op.cast (.primitive .float)).after bareContext
          (State.initial.withEntries [.primitive .byte])).warnings ≠ [] ↔
        ∃ k, bareContext.CastsToFloat (State.initial.withEntries [.primitive .byte])
          (.primitive .float) k ∧ k.Rounds) := by
  intro h
  have hwarns : ((Op.cast (.primitive .float)).after bareContext
      (State.initial.withEntries [.primitive .byte])).warnings = [.lossy .byte .float] := rfl
  obtain ⟨k, ⟨htop, -⟩, hrounds⟩ := h.mp (by rw [hwarns]; exact List.cons_ne_nil _ _)
  have hbyte : Integral.byte = k :=
    Integral.prim_injective (ValueType.primitive.inj (Option.some.inj htop))
  subst hbyte
  rcases Integral.rounds_iff.mp hrounds with hint | hlong
  · cases hint
  · cases hlong

end Lockstep
