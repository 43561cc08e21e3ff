import Lockstep.Proofs.Machine.Runs

/-!
# What a store takes

A plain variable is stored with the carrier of its declared type, but the value has been
converted to what the declared type stands for.  The two are carried alike unless the
declared type is a name that stands for a primitive (`Registry.carrier_canonical_eq_iff`).

So there is a variable for which store and model part ways: the machine has no reference
to store where the name stands for a primitive, and of a `long` or `double` one slot is
left behind.  `store_takes_declared` says how far apart they get, for every variable.

The code is straight, and what it does to the height of the stack is the sum of the
effects of its instructions (`net`).
-/

namespace Lockstep

open Lockstep.Flow

/-! ## Sums of effects -/

/-- The slots that instructions add in all; negative if they take more than they leave. -/
def net : List Instr → Int
  | [] => 0
  | i :: rest => (i.effect.pushes - i.effect.pops) + net rest

@[simp]
theorem net_nil : net [] = 0 := rfl

@[simp]
theorem net_cons (i : Instr) (rest : List Instr) :
    net (i :: rest) = (i.effect.pushes - i.effect.pops) + net rest := rfl

theorem net_append (a b : List Instr) : net (a ++ b) = net a + net b := by
  induction a with
  | nil => simp
  | cons i rest ih =>
      rw [List.cons_append, net_cons, net_cons, ih]
      omega

/-- Code that goes through adds the sum of its effects. -/
theorem View.net_eq_of_runs {α : Type} [DecidableEq α] {v : View α} {is : List Instr}
    {before after : List α} (h : runs v.act is before = some after) :
    net is = v.slots after - v.slots before := by
  induction is generalizing before with
  | nil =>
      obtain rfl : before = after := Option.some.inj h
      simp
  | cons i rest ih =>
      obtain ⟨middle, hact, hrest⟩ := Option.bind_eq_some_iff.mp h
      obtain ⟨hpops, hslots⟩ := v.act_eq_some hact
      have hnet := ih hrest
      unfold Instr.heightAfter at hslots
      rw [net_cons]
      omega

/-! ## What a type stands for -/

theorem ValueType.carrier_eq_reference_iff {t : ValueType} :
    t.carrier = .reference ↔ t.isPrimitive = false := by
  constructor
  · intro h
    cases t with
    | primitive kind => cases kind <;> cases h
    | _ => rfl
  · exact carrier_eq_reference

namespace Registry

/-- A primitive stands for itself. -/
theorem canonical_primitive (r : Registry) (kind : Prim) :
    r.canonical (.primitive kind) = .primitive kind := rfl

/-- A type is carried as what it stands for, unless it is a name for a primitive. -/
theorem carrier_canonical_eq_iff (r : Registry) (t : ValueType) :
    (r.canonical t).carrier = t.carrier ↔
      ((r.canonical t).isPrimitive = true → t.isPrimitive = true) := by
  by_cases ht : t.isPrimitive = true
  · obtain ⟨kind, rfl⟩ := ValueType.exists_eq_primitive (Option.isSome_iff_ne_none.mp ht)
    simp [canonical_primitive]
  · rw [Bool.not_eq_true] at ht
    rw [ValueType.carrier_eq_reference ht, ValueType.carrier_eq_reference_iff, ht]
    simp

end Registry

/-! ## Stores -/

/-- An instruction that takes one value, and leaves none, takes it as it is carried. -/
theorem runs_of_consuming {i : Instr} {k : Carrier} (h : i.signature? = some ([k], []))
    (top : Carrier) (values : List Carrier) :
    runs View.kinds.act [i] (top :: values) = if top = k then some values else none := by
  have hprefix : [k].isPrefixOf? (top :: values) = if k = top then some values else none := by
    by_cases h : k = top <;> simp [List.isPrefixOf?, h]
  show (View.kinds.act i (top :: values)).bind some = _
  unfold View.act
  rw [Option.bind_fun_some, h]
  show (([k].map id).isPrefixOf? (top :: values)).map _ = _
  rw [List.map_id, hprefix]
  by_cases h : k = top
  · simp [h]
  · simp [h, Ne.symm h]

theorem runs_store (k top : Carrier) (index : UInt16) (values : List Carrier) :
    runs View.kinds.act [.store k index] (top :: values) =
      if top = k then some values else none :=
  runs_of_consuming rfl top values

/-- A plain variable is stored with the carrier of its declared type.  What is on the
stack is carried as the type that this stands for, so the machine can go on exactly if the
declared type is no name for a primitive; and the code takes fewer slots than the model
loses, by as many as the declared type is narrower. -/
theorem store_takes_declared {c : Context} {s : State} {x : Variable} {top : ValueType}
    {rest : List ValueType} (hentries : s.entries = top :: rest) (hplain : x.holder = false) :
    ∃ after conversion, (Op.storeVariable x).run c s = .ok () after ∧ after.entries = rest ∧
      after.code.toList = s.code.toList ++ (conversion ++ [.store x.type.carrier x.index]) ∧
      runs View.kinds.act conversion (s.entries.map ValueType.carrier) =
        some ((c.registry.canonical x.type).carrier :: rest.map ValueType.carrier) ∧
      ((runs View.kinds.act (conversion ++ [.store x.type.carrier x.index])
          (s.entries.map ValueType.carrier)).isSome ↔
        ((c.registry.canonical x.type).isPrimitive = true → x.type.isPrimitive = true)) ∧
      net (conversion ++ [.store x.type.carrier x.index]) =
        (after.slots - s.slots : Int) + ((c.registry.canonical x.type).slots - x.type.slots) := by
  have hrun := Op.run_storeVariable c s hentries x
  have hstoring : x.storing c.settings.support (c.registry.canonical x.type) =
      [.store x.type.carrier x.index] := by
    simp [Variable.storing, hplain]
  rw [hstoring] at hrun
  have hconversion : runs View.kinds.act
      (c.conversionCode top (c.registry.canonical x.type) false) (s.entries.map ValueType.carrier) =
        some ((c.registry.canonical x.type).carrier :: rest.map ValueType.carrier) := by
    rw [hentries]
    exact (moves_conversionCode _ top _ false).runs_eq
  refine ⟨_, _, hrun, rfl, by simp, hconversion, ?_, ?_⟩
  · rw [runs_append, hconversion, Option.bind_some, runs_store, ← Registry.carrier_canonical_eq_iff]
    split
    · next heq => simp [heq]
    · next hne => simp [hne]
  · have hnet : net (c.conversionCode top (c.registry.canonical x.type) false) =
        ((c.registry.canonical x.type).slots + ValueType.totalSlots rest : Nat) - s.slots := by
      calc net (c.conversionCode top (c.registry.canonical x.type) false)
          = View.kinds.slots ((c.registry.canonical x.type :: rest).map ValueType.carrier) -
              View.kinds.slots (s.entries.map ValueType.carrier) :=
            View.net_eq_of_runs hconversion
        _ = ValueType.totalSlots (c.registry.canonical x.type :: rest) -
              ValueType.totalSlots s.entries :=
            congrArg₂ (fun a b : Nat => (a - b : Int)) (View.kinds.slots_stack _)
              (View.kinds.slots_stack _)
    have hstore : net [.store x.type.carrier x.index] = -(x.type.slots : Int) := by
      simp [Instr.effect, View.width_carrier, ValueType.slots]
    rw [net_append, hnet, hstore]
    show _ = (ValueType.totalSlots rest - s.slots : Int) + _
    omega

/-- An int is converted to `long` and stored as one. -/
theorem store_takes_declared_long :
    ∃ after, (Op.storeVariable ⟨"x", 0, .primitive .long, false⟩).run bareContext
        (State.initial.withEntries [.primitive .int]) = .ok () after ∧
      (runs View.kinds.act after.code.toList [.int]).isSome ∧ net after.code.toList = -1 ∧
      after.entries = [] := by
  have hentries : (State.initial.withEntries [.primitive .int]).entries = [.primitive .int] := rfl
  have hplain : (⟨"x", 0, .primitive .long, false⟩ : Variable).holder = false := rfl
  obtain ⟨after, conversion, hrun, hleft, hcode, -, hgoes, hnet⟩ :=
    store_takes_declared (c := bareContext) hentries hplain
  have hall : after.code.toList = conversion ++ [.store .long 0] := hcode
  have hslots : after.slots = 0 := congrArg ValueType.totalSlots hleft
  refine ⟨after, hrun, ?_, ?_, hleft⟩
  · rw [hall]
    exact hgoes.mpr fun _ => rfl
  · rw [hslots] at hnet
    rw [hall]
    exact hnet

/-- A context in which a name stands for `long`. -/
def longNameContext : Context :=
  { bareContext with registry := Registry.empty.addAlias "T" (.primitive .long) }

/-- Under the name the same int is converted to `long` and stored as a reference: the
machine cannot go on, and the height that the code leaves is not that of the model. -/
theorem store_takes_declared_name :
    ∃ after, (Op.storeVariable ⟨"x", 0, .named "T", false⟩).run longNameContext
        (State.initial.withEntries [.primitive .int]) = .ok () after ∧
      after.code.toList = [.convert .i2l, .store .reference 0] ∧
      Carrier.reference ≠ (longNameContext.registry.canonical (.named "T")).carrier ∧
      runs View.kinds.act after.code.toList [.int] = none ∧
      net after.code.toList ≠ after.slots - (State.initial.withEntries [.primitive .int]).slots :=
  ⟨_, rfl, rfl, by decide, rfl, by decide⟩

end Lockstep
