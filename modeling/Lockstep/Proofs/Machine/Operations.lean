import Lockstep.Proofs.Classes.Subtyping
import Lockstep.Proofs.Machine.Views
import Lockstep.Proofs.Stack.Accesses
import Lockstep.Proofs.Stack.Shapes

/-!
# The code of the operations on stacks of carriers

What the code of each operation makes of the machine's stack, in every view, as long
as it has no branches.

`Moves v is before after room` says that code makes one stack of another and
meanwhile takes at most `room` slots more than it found; pieces are put together
with `Moves.append`, and the room adds up.  No operation needs more than four slots.

The code of a conversion has one of a few shapes (`Context.Converts`).  Where it is empty
because the registry says so, the two types are carried alike
(`Registry.carrier_eq_of_isSubtype`); in all other shapes a primitive is boxed first, or is
converted by a numeric chain (`moves_conversionCode_cases`).
-/

namespace Lockstep

/-! ## Straight code -/

/-- The slots that instructions can add, if none of them gives any back. -/
def growth : List Instr → Nat
  | [] => 0
  | i :: rest => (i.effect.pushes - i.effect.pops) + growth rest

theorem growth_append (a b : List Instr) : growth (a ++ b) = growth a + growth b := by
  induction a with
  | nil => simp [growth]
  | cons i rest ih =>
      rw [List.cons_append, growth, growth, ih]
      omega

open Lockstep.Flow

variable {α : Type} [DecidableEq α] {v : View α}

theorem View.slots_le_of_runs {is : List Instr} {before after : List α}
    (h : runs v.act is before = some after) : v.slots after ≤ v.slots before + growth is := by
  induction is generalizing before with
  | nil =>
      obtain rfl : before = after := Option.some.inj h
      omega
  | cons i rest ih =>
      obtain ⟨middle, hact, hrest⟩ := Option.bind_eq_some_iff.mp h
      obtain ⟨hpops, hslots⟩ := v.act_eq_some hact
      have hle := ih hrest
      unfold Instr.heightAfter at hslots
      unfold growth
      omega

/-- Straight code makes one stack of another, with some slots of room. -/
structure Moves (v : View α) (is : List Instr) (before after : List α) (room : Nat) : Prop where
  straight : Straight is
  runs_eq : runs v.act is before = some after
  growth_le : growth is ≤ room

namespace Moves

variable {before middle after : List α} {room : Nat}

theorem nil (v : View α) (values : List α) : Moves v [] values values 0 :=
  ⟨by simp [Straight], rfl, Nat.le_refl 0⟩

theorem mono {is : List Instr} {more : Nat} (h : Moves v is before after room)
    (hroom : room ≤ more) : Moves v is before after more :=
  ⟨h.straight, h.runs_eq, h.growth_le.trans hroom⟩

theorem append {a b : List Instr} {room' : Nat} (ha : Moves v a before middle room)
    (hb : Moves v b middle after room') : Moves v (a ++ b) before after (room + room') := by
  refine ⟨ha.straight.append hb.straight, ?_, ?_⟩
  · rw [runs_append, ha.runs_eq, Option.bind_some, hb.runs_eq]
  · rw [growth_append]
    exact Nat.add_le_add ha.growth_le hb.growth_le

/-- One instruction with a signature. -/
theorem of_signature? (i : Instr) {takes leaves : List Carrier} (values : List α)
    (hsignature : i.signature? = some (takes, leaves)) (htarget : i.target? = none)
    (hmarked : i.marked? = none) :
    Moves v [i] (takes.map v.of ++ values) (leaves.map v.of ++ values)
      (i.effect.pushes - i.effect.pops) := by
  refine ⟨fun j hj => ?_, ?_, Nat.le_refl _⟩
  · rw [List.mem_singleton.mp hj]
    exact ⟨htarget, hmarked⟩
  · have hprefix : ∀ ks : List Carrier,
        (ks.map v.of).isPrefixOf? (ks.map v.of ++ values) = some values := by
      intro ks
      induction ks with
      | nil => rfl
      | cons k rest ih => simp [List.isPrefixOf?, ih]
    simp [runs, View.act, hsignature, hprefix]

/-- One shuffle. -/
theorem of_shuffle {i : Instr} (hsignature : i.signature? = none) (htarget : i.target? = none)
    (hmarked : i.marked? = none) (h : v.shuffle i before = some after) :
    Moves v [i] before after (i.effect.pushes - i.effect.pops) := by
  refine ⟨fun j hj => ?_, ?_, Nat.le_refl _⟩
  · rw [List.mem_singleton.mp hj]
    exact ⟨htarget, hmarked⟩
  · simp [runs, View.act, hsignature, h]

/-- With enough room, straight code carries the machine that is bounded. -/
theorem carries {is : List Instr} {limit : Nat} (h : Moves v is before after room)
    (hlimit : v.slots before + room ≤ limit) : Carries (v.bounded limit) is before after := by
  refine (Carries.of_runs h.straight h.runs_eq).guard h.straight.wellLabelled _ fun {p x} hreach => ?_
  have hruns := (h.straight.reaches_iff.mp hreach).2
  have hle := View.slots_le_of_runs hruns
  have htake : growth (is.take p) ≤ growth is := by
    rw [← List.take_append_drop p is, growth_append, List.take_append_drop]
    exact Nat.le_add_right _ _
  have hroom := h.growth_le
  omega

end Moves

variable (values : List α)

/-! ## Moving values -/

theorem moves_discard (t : ValueType) : Moves v [t.discard] (v.of t.carrier :: values) values 0 := by
  unfold ValueType.discard
  cases hwidth : t.width with
  | one => exact .of_shuffle rfl rfl rfl (by simp [View.shuffle, hwidth])
  | two => exact .of_shuffle rfl rfl rfl (by simp [View.shuffle, hwidth])

theorem moves_discards (ts : List ValueType) :
    Moves v (ts.map ValueType.discard) (v.stack ts ++ values) values 0 := by
  induction ts with
  | nil => exact .nil v values
  | cons t rest ih => exact (moves_discard (v.stack rest ++ values) t).append ih

theorem moves_duplicate (t : ValueType) :
    Moves v [t.duplicate] (v.of t.carrier :: values) (v.of t.carrier :: v.of t.carrier :: values)
      2 := by
  unfold ValueType.duplicate
  cases hwidth : t.width with
  | one =>
      exact (Moves.of_shuffle rfl rfl rfl (by simp [View.shuffle, hwidth])).mono (by decide)
  | two => exact .of_shuffle rfl rfl rfl (by simp [View.shuffle, hwidth])

/-- Values that have no common instruction to exchange them are exchanged by way of
a copy. -/
theorem moves_exchange (top below : ValueType) :
    Moves v (top.exchange below) (v.of top.carrier :: v.of below.carrier :: values)
      (v.of below.carrier :: v.of top.carrier :: values) 2 := by
  unfold ValueType.exchange
  cases hbelow : below.width with
  | one =>
      cases htop : top.width with
      | one =>
          exact (Moves.of_shuffle rfl rfl rfl (by simp [View.shuffle, hbelow, htop])).mono
            (by decide)
      | two =>
          refine ⟨by simp [Straight, Instr.target?, Instr.marked?], ?_, by decide⟩
          simp [runs, View.act, Instr.signature?, View.shuffle, hbelow, htop]
  | two =>
      cases htop : top.width with
      | one =>
          refine ⟨by simp [Straight, Instr.target?, Instr.marked?], ?_, by decide⟩
          simp [runs, View.act, Instr.signature?, View.shuffle, hbelow, htop]
      | two =>
          refine ⟨by simp [Straight, Instr.target?, Instr.marked?], ?_, by decide⟩
          simp [runs, View.act, Instr.signature?, View.shuffle, hbelow, htop]

theorem moves_boxing (t : ValueType) :
    Moves v t.boxing (v.of t.carrier :: values) (v.of .reference :: values) 0 := by
  cases t with
  | primitive kind =>
      have hroom : (Instr.box kind).effect.pushes - (Instr.box kind).effect.pops ≤ 0 := by
        cases kind <;> decide
      exact (Moves.of_signature? (.box kind) values rfl rfl rfl).mono hroom
  | _ => exact .nil v _

/-! ## Conversions -/

variable {c : Context}

theorem moves_dynamicCast (s : Support) (target : ValueType) :
    Moves v (s.dynamicCast target) (v.of .reference :: values) (v.of target.carrier :: values)
      1 := by
  unfold Support.dynamicCast
  split
  · next hobject =>
    have heq : target = .object := of_decide_eq_true hobject
    rw [heq]
    exact (Moves.nil v _).mono (Nat.zero_le _)
  · cases target with
    | primitive kind =>
        refine (Moves.of_signature? (.invoke (s.unbox kind)) values rfl rfl rfl).mono ?_
        show kind.width.slots - 1 ≤ 1
        cases kind <;> decide
    | _ => exact (Moves.of_signature? (.checkCast _) values rfl rfl rfl).mono (Nat.zero_le _)

theorem moves_coercion (s : Support) (target : ValueType) :
    Moves v (s.coercion target) (v.of .reference :: values) (v.of target.carrier :: values) 2 := by
  unfold Support.coercion
  have hclass := Moves.of_signature? (v := v) (.classLiteral target) (v.of .reference :: values)
    rfl rfl rfl
  have hcall := Moves.of_signature? (v := v) (.invoke s.asType) values rfl rfl rfl
  exact (hclass.append hcall).append (moves_dynamicCast values s target)

theorem moves_referenceCast (s : Support) (r : Registry) (target : ValueType) :
    Moves v (s.referenceCast r target) (v.of .reference :: values) (v.of .reference :: values)
      1 := by
  unfold Support.referenceCast
  have hclass := Moves.of_signature? (v := v) (.classLiteral target) (v.of .reference :: values)
    rfl rfl rfl
  split
  · exact (Moves.of_signature? (.invoke s.castToClass) values rfl rfl rfl).mono (Nat.zero_le _)
  · split
    · exact (Moves.of_signature? (.invoke s.castToString) values rfl rfl rfl).mono (Nat.zero_le _)
    · split
      · have hcall := Moves.of_signature? (v := v) (.invoke s.castToEnum) values rfl rfl rfl
        have hcheck := Moves.of_signature? (v := v) (.checkCast target) values rfl rfl rfl
        exact (hclass.append hcall).append hcheck
      · have hcall := Moves.of_signature? (v := v) (.invoke s.castToType) values rfl rfl rfl
        exact hclass.append hcall

/-- Where numeric conversions lead a carried value to, each of them starting where
the one before it ends. -/
def NumOp.leadFrom (k : Carrier) : List NumOp → Option Carrier
  | [] => some k
  | op :: rest => if k = .ofPrim op.source then leadFrom (.ofPrim op.target) rest else none

theorem leadFrom_conversion? {a b : Prim} {ops : List NumOp} (h : a.conversion? b = some ops) :
    NumOp.leadFrom (.ofPrim a) ops = some (.ofPrim b) ∧ growth (ops.map .convert) ≤ 1 := by
  cases a <;> cases b <;> cases h <;> decide

theorem moves_numeric {ops : List NumOp} {k k' : Carrier} (h : NumOp.leadFrom k ops = some k') :
    Moves v (ops.map .convert) (v.of k :: values) (v.of k' :: values)
      (growth (ops.map .convert)) := by
  induction ops generalizing k with
  | nil =>
      obtain rfl : k = k' := Option.some.inj h
      exact .nil v _
  | cons op rest ih =>
      rw [NumOp.leadFrom] at h
      split at h
      · next hsource =>
        subst hsource
        exact (Moves.of_signature? (.convert op) values rfl rfl rfl).append (ih h)
      · cases h

/-- A conversion goes straight from the one carrier to the other, or it boxes the value, if it
is primitive, and goes on from a reference. -/
theorem moves_conversionCode_cases (source target : ValueType) (explicit : Bool) :
    Moves v (c.conversionCode source target explicit) (v.of source.carrier :: values)
        (v.of target.carrier :: values) 1 ∨
      ∃ tail, c.conversionCode source target explicit = source.boxing ++ tail ∧
        Moves v tail (v.of .reference :: values) (v.of target.carrier :: values) 2 := by
  have hconverts := Context.converts_conversionCode c source target explicit
  generalize c.conversionCode source target explicit = code at hconverts ⊢
  cases hconverts with
  | asIs _ h =>
      rw [← Registry.carrier_eq_of_isSubtype h]
      exact .inl ((Moves.nil v _).mono (Nat.zero_le _))
  | coerced => exact .inr ⟨_, rfl, moves_coercion values _ target⟩
  | numeric _ h =>
      obtain ⟨hlead, hgrowth⟩ := leadFrom_conversion? h
      exact .inl ((moves_numeric values hlead).mono hgrowth)
  | @unboxed kind =>
      refine .inl ((Moves.of_signature? (.unbox kind) values rfl rfl rfl).mono ?_)
      cases kind <;> decide
  | @dynamic _ kind =>
      have hcall := moves_dynamicCast (v := v) values c.settings.support (.primitive kind)
      exact .inr ⟨_, rfl, hcall.mono (by decide)⟩
  | @boxed kind _ h =>
      rw [← Registry.carrier_eq_of_isSubtype h]
      exact .inr ⟨[], rfl, (Moves.nil v _).mono (Nat.zero_le _)⟩
  | cast htarget =>
      have hcheck : Moves v [.checkCast target] (v.of .reference :: values)
          (v.of .reference :: values) 0 := .of_signature? (.checkCast target) values rfl rfl rfl
      have hcall :=
        (moves_referenceCast values c.settings.support c.registry target).append hcheck
      rw [ValueType.carrier_eq_reference htarget]
      exact .inr ⟨_, rfl, hcall.mono (by decide)⟩

/-- Every conversion makes a value that is carried as its target is. -/
theorem moves_conversionCode (source target : ValueType) (explicit : Bool) :
    Moves v (c.conversionCode source target explicit) (v.of source.carrier :: values)
      (v.of target.carrier :: values) 2 := by
  rcases moves_conversionCode_cases (v := v) (c := c) values source target explicit with
    hdirect | ⟨tail, hcode, htail⟩
  · exact hdirect.mono (by decide)
  · rw [hcode]
    exact ((moves_boxing values source).append htail).mono (by decide)

/-! ## Literals -/

/-- An instruction takes nothing and leaves one value. -/
structure Loads (k : Carrier) (i : Instr) : Prop where
  signature : i.signature? = some ([], [k])
  target : i.target? = none
  marked : i.marked? = none

theorem Loads.moves {k : Carrier} {i : Instr} (h : Loads k i) :
    Moves v [i] values (v.of k :: values) 2 := by
  have hroom : i.effect.pushes - i.effect.pops ≤ 2 := by
    rw [View.effect_eq_of_signature? h.signature]
    cases k <;> decide
  exact (Moves.of_signature? i values h.signature h.target h.marked).mono hroom

theorem loads_intLoad (value : Int32) : Loads .int (Literal.intLoad value) := by
  unfold Literal.intLoad
  dsimp only
  repeat' split
  all_goals exact ⟨rfl, rfl, rfl⟩

theorem loads_longLoad (value : Int64) : Loads .long (Literal.longLoad value) := by
  unfold Literal.longLoad
  repeat' split
  all_goals exact ⟨rfl, rfl, rfl⟩

theorem loads_floatLoad (value : Decimal.Binary32) : Loads .float (Literal.floatLoad value) := by
  unfold Literal.floatLoad
  repeat' split
  all_goals exact ⟨rfl, rfl, rfl⟩

theorem loads_doubleLoad (value : Decimal.Binary64) :
    Loads .double (Literal.doubleLoad value) := by
  unfold Literal.doubleLoad
  repeat' split
  all_goals exact ⟨rfl, rfl, rfl⟩

theorem loads_of_primLoad? {kind : Prim} {value : Literal} {i : Instr}
    (h : Literal.primLoad? kind value = some i) : Loads (.ofPrim kind) i := by
  unfold Literal.primLoad? at h
  split at h
  · cases h
    exact ⟨rfl, rfl, rfl⟩
  · cases h
    exact loads_intLoad _
  · cases h
    exact loads_intLoad _
  · cases h
    exact loads_intLoad _
  · cases h
    exact loads_intLoad _
  · cases h
    exact loads_longLoad _
  · cases h
    exact loads_floatLoad _
  · cases h
    exact loads_doubleLoad _
  · cases h

/-- An object is made of its text by way of two copies of the reference. -/
theorem moves_construct (className digits : String) :
    Moves v (Literal.construct className digits) values (v.of .reference :: values) 3 := by
  refine ⟨?_, ?_, Nat.le_refl _⟩
  · simp [Literal.construct, Straight, Instr.target?, Instr.marked?]
  · simp [Literal.construct, runs, View.act, Instr.signature?, View.shuffle, v.width_of,
      Carrier.width, Method.takes, Method.leaves, ValueType.carrier, PoolConst.carrier,
      ValueType.string, List.isPrefixOf?]

theorem moves_referenceLoad {value : Literal} {code : List Instr}
    (h : value.referenceLoad? = some code) : Moves v code values (v.of .reference :: values) 3 := by
  unfold Literal.referenceLoad? at h
  split at h
  · cases h
    exact moves_construct values _ _
  · cases h
    exact moves_construct values _ _
  · next text =>
    cases h
    exact (Moves.of_signature? (.poolConst (.string text)) values rfl rfl rfl).mono
      (show 1 ≤ 3 by decide)
  · cases h

/-- A literal is loaded as a value of the type that it is on the stack as. -/
theorem moves_load {value : Literal} {declared t : ValueType} {code : List Instr}
    (h : value.load declared = .ok (code, t)) :
    Moves v code values (v.of t.carrier :: values) 3 := by
  unfold Literal.load at h
  split at h
  · cases h
    exact (Moves.of_signature? .nullConst values rfl rfl rfl).mono (by decide)
  · next b kind =>
    cases h
    exact (Moves.of_signature? (.getStatic (Literal.sharedBox b)) values rfl rfl rfl).mono
      (show 1 ≤ 3 by decide)
  · split at h
    · next hload =>
      cases h
      exact ((loads_of_primLoad? hload).moves values).mono (by decide)
    · cases h
  · next kind _ _ =>
    split at h
    · next hload =>
      cases h
      have hbox := moves_boxing (v := v) values (.primitive kind)
      exact (((loads_of_primLoad? hload).moves values).append hbox).mono (by decide)
    · cases h
  · next hprimitive _ _ =>
    have hcarrier : declared.carrier = .reference := by
      cases declared with
      | primitive kind => exact absurd rfl (hprimitive kind)
      | _ => rfl
    split at h
    · next hload =>
      cases h
      rw [hcarrier]
      exact moves_referenceLoad values hload
    · cases h

/-! ## Variables -/

theorem carrier_ofClassName (name : String) : (ValueType.ofClassName name).carrier = .reference := by
  unfold ValueType.ofClassName
  split <;> rfl

theorem moves_loading (x : Variable) (s : Support) (cellItself : Bool) :
    Moves v (x.loading s cellItself).1 values
      (v.of (x.loading s cellItself).2.carrier :: values) 2 := by
  unfold Variable.loading
  have hcell := Moves.of_signature? (v := v) (.load .reference x.index) values rfl rfl rfl
  split
  · split
    · show Moves v _ values (v.of s.cellType.carrier :: values) 2
      rw [Support.cellType, carrier_ofClassName]
      exact hcell.mono (show 1 ≤ 2 by decide)
    · have hget := Moves.of_signature? (v := v) (.invoke s.cellGet) values rfl rfl rfl
      exact (hcell.append hget).append (moves_dynamicCast values s x.type)
  · exact (⟨rfl, rfl, rfl⟩ : Loads _ (.load x.type.carrier x.index)).moves values

/-- A variable is stored with the carrier of its declared type, which has to look
like that of the value it is cast to. -/
theorem moves_storing (x : Variable) (s : Support) (stored : ValueType)
    (h : x.holder = false → v.of stored.carrier = v.of x.type.carrier) :
    Moves v (x.storing s stored) (v.of stored.carrier :: values) values 1 := by
  unfold Variable.storing
  split
  · have hcell : Moves v [.load .reference x.index, .checkCast s.cellType, .swap, .invoke s.cellSet]
        (v.of .reference :: values) values 1 := by
      refine ⟨?_, ?_, Nat.le_refl _⟩
      · simp [Straight, Instr.target?, Instr.marked?]
      · simp [runs, View.act, Instr.signature?, View.shuffle, v.width_of, Carrier.width,
          Method.takes, Method.leaves, Support.cellSet, ValueType.carrier, ValueType.object,
          List.isPrefixOf?]
    exact ((moves_boxing _ stored).append hcell).mono (by decide)
  · next hholder =>
    rw [h (by simpa using hholder)]
    exact (Moves.of_signature? (.store x.type.carrier x.index) values rfl rfl rfl).mono
      (by simp [Instr.effect])

end Lockstep
