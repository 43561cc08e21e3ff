import Lockstep.Proofs.Machine.Types

/-!
# The footprint of a conversion

The code of a conversion is for the value on top, whatever is below it: entered with the
slots of the value alone it does not underflow, and ends with the slots of the target.  It
never needs more than three slots (`carries_conversionCode`): a value of two slots is boxed
before two others are put on top of it.

A conversion that follows one to the same type finds the value as it is to be, and does
nothing (`Op.run_convert_self`).
-/

namespace Lockstep

open Lockstep.Flow

variable {α : Type} [DecidableEq α] {v : View α} {c : Context} {s : State}
  {source target : ValueType} {rest : List ValueType} {limit : Nat}

/-! ## Heights -/

/-- Three slots are enough for every conversion.  What comes after a box starts with one. -/
theorem carries_conversionCode (hlimit : 3 ≤ limit) (source target : ValueType) (explicit : Bool) :
    Carries (v.bounded limit) (c.conversionCode source target explicit) [v.of source.carrier]
      [v.of target.carrier] := by
  have hslots := source.carrier.slots_bounds.2
  rcases moves_conversionCode_cases (v := v) (c := c) [] source target explicit with
    hdirect | ⟨tail, hcode, htail⟩
  · refine hdirect.carries ?_
    rw [View.slots_singleton]
    omega
  · have hboxing := moves_boxing (v := v) [] source
    rw [hcode]
    refine Carries.append hboxing.straight.wellLabelled htail.straight.wellLabelled
      (fun label hmark => absurd hmark (hboxing.straight.not_mark_mem label))
      (hboxing.carries ?_) (htail.carries ?_)
    · rw [View.slots_singleton]
      omega
    · rw [View.slots_singleton]
      exact hlimit

/-- The code of a conversion is accepted on its own. -/
theorem verify_conversionCode (hlimit : 3 ≤ limit) (source target : ValueType) (explicit : Bool) :
    verify limit (c.conversionCode source target explicit) source.slots = .ok target.slots := by
  have hstraight := (moves_conversionCode (v := View.widths) (c := c) [] source target
    explicit).straight
  have hcarries := carries_slots
    (carries_conversionCode (v := View.widths) (c := c) hlimit source target explicit)
  have hslots : ∀ t : ValueType, View.widths.slots [View.widths.of t.carrier] = t.slots := by
    intro t
    rw [View.slots_singleton, View.width_carrier]
    rfl
  rw [hslots, hslots] at hcarries
  exact verify_eq_ok_iff.mpr ⟨hstraight.wellLabelled, hcarries⟩

/-! ## A second conversion -/

/-- A value of what the target stands for is converted as it is. -/
theorem Op.run_convert_self (h : s.entries = c.registry.canonical target :: rest)
    (explicit : Bool) : (Op.convert target explicit).run c s = .ok () s := by
  have hcode : c.conversionCode (c.registry.canonical target) (c.registry.canonical target)
      explicit = [] := if_pos (.inl rfl)
  have hnotes : c.conversionNotes (c.registry.canonical target) (c.registry.canonical target)
      explicit = [] := if_pos (.inl rfl)
  rw [Op.run_convert c s h, hcode, hnotes, State.noting_nil, State.appending_nil,
    State.withEntries_eq_self h]

/-! ## The conversions -/

/-- Every conversion of a value succeeds.  It puts what the target stands for in the place of
the value's type and leaves everything below as it is; its code is straight, works on the
value alone and needs no more than three slots; and every conversion to the same type that
follows does nothing. -/
theorem footprint_of_conversion {call : Call} (hcall : call.converts? = some target)
    (hentries : s.entries = source :: rest) :
    ∃ after code, call.perform.run c s = .ok () after ∧
      after.entries = c.registry.canonical target :: rest ∧
      after.code.toList = s.code.toList ++ code ∧ Straight code ∧
      (∀ limit, 3 ≤ limit →
        verify limit code source.slots = .ok (c.registry.canonical target).slots) ∧
      ∀ again : Call, again.converts? = some target → again.perform.run c after = .ok () after := by
  obtain ⟨after, explicit, hrun, hcode, hleft⟩ := call.run_of_converts? c s hcall hentries
  refine ⟨after, _, hrun, hleft, hcode, ?_, ?_, ?_⟩
  · exact (moves_conversionCode (v := View.widths) [] source _ explicit).straight
  · intro limit hlimit
    exact verify_conversionCode hlimit source _ explicit
  · intro again hagain
    cases again with
    | cast t =>
        cases hagain
        exact Op.run_convert_self hleft false
    | coerce t =>
        cases hagain
        exact Op.run_convert_self hleft true
    | castToVariable x =>
        cases hagain
        exact Op.run_convert_self hleft false
    | _ => cases hagain

/-- Two aliases that stand for each other. -/
def circularContext : Context :=
  { bareContext with registry := (Registry.empty.addAlias "A" (.named "B")).addAlias "B" (.named "A") }

/-- A `double` is cast to one of the two, which the limit on steps leaves as it is. -/
theorem footprint_of_conversion_circular :
    ∃ after code,
      (Call.cast (.named "A")).perform.run circularContext
        (State.initial.withEntries [.primitive .double, .primitive .int]) = .ok () after ∧
      after.entries = [.named "A", .primitive .int] ∧ after.code.toList = code ∧
      verify 3 code 2 = .ok 1 ∧
      (Call.coerce (.named "A")).perform.run circularContext after = .ok () after := by
  have hcall : (Call.cast (.named "A")).converts? = some (.named "A") := rfl
  have hentries : (State.initial.withEntries [.primitive .double, .primitive .int]).entries =
      [.primitive .double, .primitive .int] := rfl
  obtain ⟨after, code, hrun, hleft, hcode, -, hverify, hagain⟩ :=
    footprint_of_conversion (c := circularContext) hcall hentries
  have hcanonical : circularContext.registry.canonical (.named "A") = .named "A" := rfl
  rw [hcanonical] at hleft hverify
  exact ⟨after, code, hrun, hleft, hcode, hverify 3 (Nat.le_refl 3), hagain (.coerce _) rfl⟩

end Lockstep
