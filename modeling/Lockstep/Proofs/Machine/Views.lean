import Lockstep.Proofs.Flow.Exploration
import Lockstep.Proofs.Flow.Fragments

/-!
# Stacks of carriers

The machine sees on its stack how each value is carried, one entry for a value.
`Instr.signature?` lists what an instruction takes and leaves; the shuffles take
anything of the widths that they are for.

The same machine can be watched with less attention: a `View` forgets about the
carriers all but something that still tells the widths.  `View.kinds` forgets
nothing, `View.widths` all but the widths.  Whatever the view, the number of slots
changes as the effect of the instruction says (`View.act_eq_some`), so that a
statement about stacks in any view bounds the heights.
-/

namespace Lockstep

/-! ## Signatures -/

/-- How a pool constant is carried. -/
def PoolConst.carrier : PoolConst → Carrier
  | .int _ => .int
  | .long _ => .long
  | .float _ => .float
  | .double _ => .double
  | .string _ => .reference

/-- What a conditional jump looks at. -/
def Cond.carrier : Cond → Carrier
  | .isZero | .isNonzero => .int
  | .isNull | .isNonnull => .reference

namespace Method

/-- What a call takes, the top first: the last argument comes first, and the
receiver, if there is one, comes last. -/
def takes (m : Method) : List Carrier :=
  m.params.reverse.map ValueType.carrier ++ if m.dispatch = .static then [] else [.reference]

/-- What a call leaves. -/
def leaves (m : Method) : List Carrier := (m.result.map ValueType.carrier).toList

end Method

/-- What an instruction takes from the stack, the top first, and what it leaves
in its place.  The shuffles have no signature. -/
def Instr.signature? : Instr → Option (List Carrier × List Carrier)
  | .nullConst => some ([], [.reference])
  | .intConst _ | .bytePush _ | .shortPush _ => some ([], [.int])
  | .longZero | .longOne => some ([], [.long])
  | .floatZero | .floatOne | .floatTwo => some ([], [.float])
  | .doubleZero | .doubleOne => some ([], [.double])
  | .poolConst c => some ([], [c.carrier])
  | .load carrier _ => some ([], [carrier])
  | .store carrier _ => some ([carrier], [])
  | .convert op => some ([.ofPrim op.source], [.ofPrim op.target])
  | .compareLong => some ([.long, .long], [.int])
  | .compareFloat => some ([.float, .float], [.int])
  | .compareDouble => some ([.double, .double], [.int])
  | .box kind => some ([.ofPrim kind], [.reference])
  | .unbox kind => some ([.reference], [.ofPrim kind])
  | .checkCast _ => some ([.reference], [.reference])
  | .new _ | .classLiteral _ => some ([], [.reference])
  | .getStatic field => some ([], [field.type.carrier])
  | .invoke m => some (m.takes, m.leaves)
  | .jump cond _ => some ([cond.carrier], [])
  | .goto _ | .mark _ => some ([], [])
  | .pop | .pop2 | .dup | .dup2 | .dupX2 | .dup2X1 | .dup2X2 | .swap => none

theorem Carrier.slots_bounds (k : Carrier) : 1 ≤ k.width.slots ∧ k.width.slots ≤ 2 := by
  cases k <;> decide

/-! ## Views -/

/-- What is told apart about a value on the stack: no more than how it is
carried, and at least its width. -/
structure View (α : Type) where
  of : Carrier → α
  width : α → Width
  width_of : ∀ carrier, width (of carrier) = carrier.width

namespace View

/-- All carriers are told apart. -/
def kinds : View Carrier := ⟨id, Carrier.width, fun _ => rfl⟩

/-- Nothing but the widths is told apart. -/
def widths : View Width := ⟨Carrier.width, id, fun _ => rfl⟩

variable {α : Type} (v : View α)

/-- The slots of a stack. -/
def slots : List α → Nat
  | [] => 0
  | a :: rest => (v.width a).slots + slots rest

/-- The stack of a list of types. -/
def stack (ts : List ValueType) : List α := ts.map fun t => v.of t.carrier

/-- What a shuffle makes of a stack.  Each is for values of certain widths. -/
def shuffle : Instr → List α → Option (List α)
  | .pop, a :: rest => if v.width a = .one then some rest else none
  | .pop2, a :: rest => if v.width a = .two then some rest else none
  | .dup, a :: rest => if v.width a = .one then some (a :: a :: rest) else none
  | .dup2, a :: rest => if v.width a = .two then some (a :: a :: rest) else none
  | .swap, a :: b :: rest =>
    if v.width a = .one ∧ v.width b = .one then some (b :: a :: rest) else none
  | .dupX2, a :: b :: rest =>
    if v.width a = .one ∧ v.width b = .two then some (a :: b :: a :: rest) else none
  | .dup2X1, a :: b :: rest =>
    if v.width a = .two ∧ v.width b = .one then some (a :: b :: a :: rest) else none
  | .dup2X2, a :: b :: rest =>
    if v.width a = .two ∧ v.width b = .two then some (a :: b :: a :: rest) else none
  | _, _ => none

/-! ## Slots -/

@[simp]
theorem slots_append (a b : List α) : v.slots (a ++ b) = v.slots a + v.slots b := by
  induction a with
  | nil => simp [slots]
  | cons x rest ih =>
      rw [List.cons_append, slots, slots, ih]
      omega

theorem slots_of_cons (k : Carrier) (values : List α) :
    v.slots (v.of k :: values) = k.width.slots + v.slots values := by
  rw [slots, v.width_of]

theorem slots_singleton (k : Carrier) : v.slots [v.of k] = k.width.slots := v.slots_of_cons k []

theorem slots_map_of (ks : List Carrier) : v.slots (ks.map v.of) = kinds.slots ks := by
  induction ks with
  | nil => rfl
  | cons k rest ih =>
      rw [List.map_cons, slots_of_cons, ih]
      rfl

theorem width_carrier (t : ValueType) : t.carrier.width = t.width := by
  cases t with
  | primitive kind => cases kind <;> rfl
  | _ => rfl

@[simp]
theorem width_of_carrier (t : ValueType) : v.width (v.of t.carrier) = t.width := by
  rw [v.width_of, width_carrier]

theorem stack_cons (t : ValueType) (ts : List ValueType) :
    v.stack (t :: ts) = v.of t.carrier :: v.stack ts := rfl

theorem stack_append (ts us : List ValueType) : v.stack (ts ++ us) = v.stack ts ++ v.stack us :=
  List.map_append

theorem slots_stack (ts : List ValueType) : v.slots (v.stack ts) = ValueType.totalSlots ts := by
  induction ts with
  | nil => rfl
  | cons t rest ih =>
      rw [stack_cons, slots, width_of_carrier, ih]
      rfl

/-- A shuffle moves the slots of its effect. -/
theorem slots_of_shuffle {i : Instr} {values after : List α} (h : v.shuffle i values = some after) :
    i.effect.pops ≤ v.slots values ∧ v.slots after = i.heightAfter (v.slots values) := by
  unfold shuffle at h
  split at h
  case h_9 => cases h
  all_goals
    split at h
    · next hwidth =>
      cases h
      simp only [slots, hwidth, Width.slots, Instr.effect, Instr.heightAfter]
      omega
    · cases h

/-! ## The machine -/

variable [DecidableEq α]

/-- What an instruction makes of a stack, if it finds there what it needs. -/
def act (i : Instr) (values : List α) : Option (List α) :=
  match i.signature? with
  | some (takes, leaves) =>
    ((takes.map v.of).isPrefixOf? values).map fun rest => leaves.map v.of ++ rest
  | none => v.shuffle i values

/-- The machine that refuses to go beyond a number of slots. -/
def bounded (limit : Nat) : Instr → List α → Option (List α) :=
  Flow.guarded (fun values => v.slots values ≤ limit) v.act

theorem bounded_eq_some_iff {limit : Nat} {i : Instr} {values after : List α} :
    v.bounded limit i values = some after ↔ v.act i values = some after ∧ v.slots after ≤ limit := by
  unfold bounded Flow.guarded
  rw [Option.filter_eq_some_iff, decide_eq_true_iff]

theorem isPrefixOf?_eq_some {takes values rest : List α}
    (h : takes.isPrefixOf? values = some rest) : values = takes ++ rest := by
  induction takes generalizing values with
  | nil => exact Option.some.inj h
  | cons x takes ih =>
      cases values with
      | nil => cases h
      | cons y values =>
          rw [List.isPrefixOf?] at h
          split at h
          · next heq =>
            rw [List.cons_append, ← ih h, beq_iff_eq.mp heq]
          · cases h

/-- An instruction with a signature needs what it takes on top. -/
theorem act_eq_some_of_signature? {i : Instr} {takes leaves : List Carrier} {values after : List α}
    (hsignature : i.signature? = some (takes, leaves)) (h : v.act i values = some after) :
    ∃ rest, values = takes.map v.of ++ rest ∧ after = leaves.map v.of ++ rest := by
  unfold act at h
  simp only [hsignature] at h
  obtain ⟨rest, hprefix, rfl⟩ := Option.map_eq_some_iff.mp h
  exact ⟨rest, isPrefixOf?_eq_some hprefix, rfl⟩

/-! ## Effects -/

theorem slots_takes (m : Method) : kinds.slots m.takes = m.argumentSlots := by
  have hreverse : ∀ ts : List ValueType,
      kinds.slots (ts.reverse.map ValueType.carrier) = ValueType.totalSlots ts := by
    intro ts
    induction ts with
    | nil => rfl
    | cons t rest ih =>
        rw [List.reverse_cons, List.map_append, slots_append, ih, Nat.add_comm]
        show t.carrier.width.slots + 0 + _ = _
        rw [width_carrier]
        rfl
  unfold Method.takes Method.argumentSlots
  rw [slots_append, hreverse, Nat.add_comm]
  split <;> rfl

theorem slots_leaves (m : Method) : kinds.slots m.leaves = m.resultSlots := by
  unfold Method.leaves Method.resultSlots
  cases m.result with
  | none => rfl
  | some t =>
      show t.carrier.width.slots + 0 = t.width.slots
      rw [width_carrier]
      rfl

/-- A signature has the widths of the effect. -/
theorem effect_eq_of_signature? {i : Instr} {takes leaves : List Carrier}
    (h : i.signature? = some (takes, leaves)) :
    i.effect = ⟨kinds.slots takes, kinds.slots leaves⟩ := by
  cases i with
  | invoke m =>
      cases h
      rw [slots_takes, slots_leaves]
      rfl
  | getStatic field =>
      cases h
      show Effect.mk 0 field.type.width.slots = ⟨0, field.type.carrier.width.slots + 0⟩
      rw [width_carrier]
      rfl
  | poolConst c =>
      cases h
      cases c <;> rfl
  | convert op =>
      cases h
      cases op <;> rfl
  | box kind =>
      cases h
      cases kind <;> rfl
  | unbox kind =>
      cases h
      cases kind <;> rfl
  | jump cond label =>
      cases h
      cases cond <;> rfl
  | pop | pop2 | dup | dup2 | dupX2 | dup2X1 | dup2X2 | swap => cases h
  | _ =>
      cases h
      rfl

/-- Whatever is told apart, the slots change by the effect of the instruction. -/
theorem act_eq_some {i : Instr} {values after : List α} (h : v.act i values = some after) :
    i.effect.pops ≤ v.slots values ∧ v.slots after = i.heightAfter (v.slots values) := by
  cases hsignature : i.signature? with
  | none =>
      unfold act at h
      simp only [hsignature] at h
      exact v.slots_of_shuffle h
  | some signature =>
      obtain ⟨takes, leaves⟩ := signature
      obtain ⟨rest, rfl, rfl⟩ := v.act_eq_some_of_signature? hsignature h
      simp only [effect_eq_of_signature? hsignature, Instr.heightAfter, slots_append, slots_map_of]
      omega

end View

end Lockstep
