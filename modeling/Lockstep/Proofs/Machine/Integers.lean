import Lockstep.Proofs.Machine.Literals
import Lockstep.Proofs.Machine.TruthValues

/-!
# Conversions between integers

The conversions between the five kinds of integers, executed.  Whatever integer is on top, the
conversion from its kind to another puts in its place the one integer of the other kind that
differs from it by a multiple of `2 ^ bits` (`conversion_wraps`, `Integral.dvd_number_sub_iff`).
All that a language says about such casts follows: none changes an integer that the target
has, and a way round by a kind that is wide enough can be cut short.

## Strategy

`BitVec.ofInt` wraps in every width, and what is on the stack is the word that it makes of the
integer, with 32 bits or with 64.  A narrow kind keeps as many of these as it has, and the
others are then copies of its sign, or zeros.  So every conversion is one of three: to a kind
that is an int on the stack, from a word that holds the integer as far as it goes
(`converts_fromInt`); from an int to a long (`converts_i2l`); and from a long to such a word
(`converts_l2i`).
-/

namespace Lockstep

variable {ρ : Type}

/-! ## Words of integers -/

/-- Two numbers have the same word if they differ by a multiple of the number of words. -/
theorem ofInt_eq_ofInt_iff {w : Nat} {m n : Int} :
    BitVec.ofInt w m = BitVec.ofInt w n ↔ (2 ^ w : Int) ∣ m - n := by
  rw [← BitVec.toInt_inj, BitVec.toInt_ofInt, BitVec.toInt_ofInt,
    Int.bmod_eq_bmod_iff_bmod_sub_eq_zero, ← Int.dvd_iff_bmod_eq_zero, Nat.cast_pow,
    Nat.cast_ofNat]

/-- The last bits of the word of a number are its shorter word. -/
theorem setWidth_ofInt {v w : Nat} (h : v ≤ w) (n : Int) :
    (BitVec.ofInt w n).setWidth v = BitVec.ofInt v n := by
  rw [← BitVec.signExtend_eq_setWidth_of_le _ h]
  apply BitVec.eq_of_toInt_eq
  rw [BitVec.toInt_signExtend, BitVec.toInt_ofInt, BitVec.toInt_ofInt, Nat.min_eq_left h]
  exact Int.bmod_bmod_of_dvd (Nat.pow_dvd_pow 2 h)

/-! ## Integers of a kind -/

/-- The kinds of integers. -/
inductive Integral where
  | byte
  | char
  | short
  | int
  | long
  deriving DecidableEq, Repr

namespace Integral

def prim : Integral → Prim
  | .byte => .byte
  | .char => .char
  | .short => .short
  | .int => .int
  | .long => .long

def bits : Integral → Nat
  | .byte => 8
  | .char => 16
  | .short => 16
  | .int => 32
  | .long => 64

/-- The integers of a kind. -/
abbrev Value (k : Integral) : Type := k.prim.Value

/-- The bits of an integer, as many as the kind has. -/
def toBits : (k : Integral) → k.Value → BitVec k.bits
  | .byte, v => Int8.toBitVec v
  | .char, v => UInt16.toBitVec v
  | .short, v => Int16.toBitVec v
  | .int, v => Int32.toBitVec v
  | .long, v => Int64.toBitVec v

/-- An integer of a kind as a number; only code units have no sign. -/
def number : (k : Integral) → k.Value → Int
  | .byte, v => Int8.toInt v
  | .char, v => UInt16.toNat v
  | .short, v => Int16.toInt v
  | .int, v => Int32.toInt v
  | .long, v => Int64.toInt v

/-- A number reduced to an integer of a kind. -/
def reduce : (k : Integral) → Int → k.Value
  | .byte, n => Int8.ofInt n
  | .char, n => UInt16.ofInt n
  | .short, n => Int16.ofInt n
  | .int, n => Int32.ofInt n
  | .long, n => Int64.ofInt n

variable {k : Integral} {m n : Int}

theorem prim_injective : Function.Injective prim := by
  intro j k h
  cases j <;> cases k <;> simp [prim] at h ⊢

theorem toBits_inj {v w : k.Value} : k.toBits v = k.toBits w ↔ v = w := by
  cases k with
  | byte => exact Int8.toBitVec_inj
  | char => exact UInt16.toBitVec_inj
  | short => exact Int16.toBitVec_inj
  | int => exact Int32.toBitVec_inj
  | long => exact Int64.toBitVec_inj

/-- A number is reduced to the integer that has its last bits. -/
theorem toBits_reduce : k.toBits (k.reduce n) = BitVec.ofInt k.bits n := by
  cases k with
  | char =>
      apply BitVec.eq_of_toNat_eq
      show (UInt16.ofNat (n % 2 ^ 16).toNat).toNat = (BitVec.ofInt 16 n).toNat
      rw [UInt16.toNat_ofNat', BitVec.toNat_ofInt]
      omega
  | _ => rfl

theorem ofInt_number_eq_toBits (v : k.Value) : BitVec.ofInt k.bits (k.number v) = k.toBits v := by
  cases k with
  | char =>
      apply BitVec.eq_of_toNat_eq
      show (BitVec.ofInt 16 (UInt16.toNat v : Int)).toNat = UInt16.toNat v
      rw [BitVec.ofInt_natCast, BitVec.toNat_ofNat, Nat.mod_eq_of_lt (UInt16.toNat_lt v)]
  | _ => exact BitVec.ofInt_toInt

/-- The integers of a kind are the numbers up to multiples of `2 ^ bits`: of those that differ
by one from a number, the kind has just the one that the number is reduced to. -/
theorem dvd_number_sub_iff (v : k.Value) : (2 ^ k.bits : Int) ∣ k.number v - n ↔ v = k.reduce n := by
  rw [← Lockstep.ofInt_eq_ofInt_iff, ofInt_number_eq_toBits, ← toBits_reduce, toBits_inj]

theorem reduce_number (v : k.Value) : k.reduce (k.number v) = v :=
  ((dvd_number_sub_iff v).mp (by rw [Int.sub_self]; exact Int.dvd_zero _)).symm

theorem dvd_number_reduce_sub (k : Integral) (n : Int) :
    (2 ^ k.bits : Int) ∣ k.number (k.reduce n) - n :=
  (dvd_number_sub_iff _).mpr rfl

theorem reduce_eq_reduce (h : (2 ^ k.bits : Int) ∣ m - n) : k.reduce m = k.reduce n := by
  rwa [← toBits_inj, toBits_reduce, toBits_reduce, Lockstep.ofInt_eq_ofInt_iff]

/-- A reduction to a kind with as many bits or more makes no difference to a later one. -/
theorem reduce_number_reduce {j : Integral} (h : k.bits ≤ j.bits) (n : Int) :
    k.reduce (j.number (j.reduce n)) = k.reduce n :=
  reduce_eq_reduce ((pow_dvd_pow 2 h).trans (dvd_number_reduce_sub j n))

end Integral

/-! ## Conversions on the stack -/

/-- What a conversion between integers makes of the slots, the top first.  An int is cut down to
its last bits and extended again, by copies of its sign or by zeros; a long is cut down to its
last 32 bits. -/
def NumOp.compute : NumOp → List (Slot ρ) → Option (List (Slot ρ))
  | .i2b, .word bits :: rest => some (.word ((bits.setWidth 8).signExtend 32) :: rest)
  | .i2c, .word bits :: rest => some (.word ((bits.setWidth 16).setWidth 32) :: rest)
  | .i2s, .word bits :: rest => some (.word ((bits.setWidth 16).signExtend 32) :: rest)
  | .i2l, .word bits :: rest => some (Slot.wide (bits.signExtend 64) ++ rest)
  | .l2i, .word low :: .word high :: rest => some (.word ((high ++ low).setWidth 32) :: rest)
  | _, _ => none

/-- What some conversions make of the slots, one after the other. -/
def NumOp.computeAll : List NumOp → List (Slot ρ) → Option (List (Slot ρ))
  | [], slots => some slots
  | op :: rest, slots => (op.compute slots).bind (computeAll rest)

theorem Prim.conversion?_self (kind : Prim) : kind.conversion? kind = some [] := if_pos rfl

/-- What the conversion from a kind to another makes of the slots. -/
def Prim.convert? (source target : Prim) (slots : List (Slot ρ)) : Option (List (Slot ρ)) :=
  (source.conversion? target).bind fun ops => NumOp.computeAll ops slots

namespace Integral

variable {k : Integral} {source target : Integral} {below : List (Slot ρ)}

/-- What is an int on the stack is the word of its number. -/
theorem slots_eq_word (hk : k ≠ .long) (v : k.Value) :
    k.prim.slots v = [(.word (BitVec.ofInt 32 (k.number v)) : Slot ρ)] := by
  have hword : ∀ (n : Int32) (m : Int), n.toInt = m →
      [(.word n.toBitVec : Slot ρ)] = [.word (BitVec.ofInt 32 m)] := by
    rintro n m rfl
    exact congrArg (fun bits => [Slot.word bits]) BitVec.ofInt_toInt.symm
  cases k with
  | byte => exact hword _ _ (Int8.toInt_toInt32 v)
  | char => exact hword _ _ (Literal.toInt_unit v)
  | short => exact hword _ _ (Int16.toInt_toInt32 v)
  | int => exact hword v _ rfl
  | long => exact absurd rfl hk

/-- From the word of a number the conversion to a kind makes the integer it is reduced to. -/
theorem computeAll_fromInt (hk : k ≠ .long) (n : Int) :
    NumOp.computeAll k.prim.fromInt (.word (BitVec.ofInt 32 n) :: below) =
      some (k.prim.slots (k.reduce n) ++ below) := by
  cases k with
  | byte =>
      show some (Slot.word (((BitVec.ofInt 32 n).setWidth 8).signExtend 32) :: below) = _
      rw [setWidth_ofInt (by decide)]
      rfl
  | char =>
      show some (Slot.word (((BitVec.ofInt 32 n).setWidth 16).setWidth 32) :: below) = _
      rw [setWidth_ofInt (by decide)]
      exact congrArg (fun bits => some (Slot.word (bits.setWidth 32) :: below))
        (toBits_reduce (k := .char)).symm
  | short =>
      show some (Slot.word (((BitVec.ofInt 32 n).setWidth 16).signExtend 32) :: below) = _
      rw [setWidth_ofInt (by decide)]
      rfl
  | int => rfl
  | long => exact absurd rfl hk

/-- From a long the conversion to an int makes the word of its number. -/
theorem compute_l2i (v : Value .long) :
    NumOp.l2i.compute (long.prim.slots v ++ below) =
      some (.word (BitVec.ofInt 32 (long.number v)) :: below) := by
  have hbits : BitVec.ofInt 64 (long.number v) = Int64.toBitVec v := BitVec.ofInt_toInt
  show some (Slot.word ((_ ++ _ : BitVec (32 + 32)).setWidth 32) :: below) = _
  rw [append_halves, ← hbits]
  exact congrArg (fun bits => some (Slot.word bits :: below)) (setWidth_ofInt (by decide) _)

/-- An int is extended to the long with the same number. -/
theorem compute_i2l {n : Int} (hle : -2147483648 ≤ n) (hlt : n < 2147483648) :
    NumOp.i2l.compute (.word (BitVec.ofInt 32 n) :: below) =
      some (long.prim.slots (long.reduce n) ++ below) := by
  have hextend : (BitVec.ofInt 32 n).signExtend 64 = BitVec.ofInt 64 n := by
    apply BitVec.eq_of_toInt_eq
    rw [BitVec.toInt_signExtend_of_le (by decide), BitVec.toInt_ofInt, BitVec.toInt_ofInt,
      Int.bmod_eq_of_le (by omega) (by omega), Int.bmod_eq_of_le (by omega) (by omega)]
  show some (Slot.wide ((BitVec.ofInt 32 n).signExtend 64) ++ below) = _
  rw [hextend]
  rfl

/-- The numbers of what is an int on the stack. -/
theorem number_bounds (hk : k ≠ .long) (v : k.Value) :
    -2147483648 ≤ k.number v ∧ k.number v < 2147483648 := by
  cases k with
  | byte =>
      have hle : -128 ≤ byte.number v := Int8.le_toInt v
      have hlt : byte.number v < 128 := Int8.toInt_lt v
      exact ⟨by omega, by omega⟩
  | char =>
      have hnat : char.number v = UInt16.toNat v := rfl
      have hlt := UInt16.toNat_lt v
      exact ⟨by omega, by omega⟩
  | short =>
      have hle : -32768 ≤ short.number v := Int16.le_toInt v
      have hlt : short.number v < 32768 := Int16.toInt_lt v
      exact ⟨by omega, by omega⟩
  | int => exact ⟨Int32.le_toInt v, Int32.toInt_lt v⟩
  | long => exact absurd rfl hk

theorem toInt_of_ne_long (hk : k ≠ .long) : k.prim.toInt = [] := by
  cases k with
  | long => exact absurd rfl hk
  | _ => rfl

/-- Between two kinds of integers the conversion goes by way of an int. -/
theorem conversion?_of_ne (h : source ≠ target) :
    source.prim.conversion? target.prim = some (source.prim.toInt ++ target.prim.fromInt) := by
  have hne : source.prim ≠ target.prim := fun heq => h (prim_injective heq)
  unfold Prim.conversion?
  rw [if_neg hne]
  cases source <;> cases target <;> rfl

/-- A conversion puts in the place of an integer the one that it is reduced to. -/
theorem convert?_slots (source target : Integral) (v : source.Value) (below : List (Slot ρ)) :
    source.prim.convert? target.prim (source.prim.slots v ++ below) =
      some (target.prim.slots (target.reduce (source.number v)) ++ below) := by
  unfold Prim.convert?
  by_cases hsame : source = target
  · subst hsame
    rw [reduce_number, Prim.conversion?_self, Option.bind_some, NumOp.computeAll]
  · rw [conversion?_of_ne hsame, Option.bind_some]
    by_cases hsource : source = .long
    · subst hsource
      have htarget : target ≠ .long := fun h => hsame h.symm
      have hhub : long.prim.toInt = [.l2i] := rfl
      rw [hhub, List.singleton_append, NumOp.computeAll, compute_l2i, Option.bind_some]
      exact computeAll_fromInt htarget _
    · rw [toInt_of_ne_long hsource, List.nil_append, slots_eq_word hsource]
      by_cases htarget : target = .long
      · subst htarget
        obtain ⟨hle, hlt⟩ := number_bounds hsource v
        have hhub : long.prim.fromInt = [.i2l] := rfl
        rw [hhub, NumOp.computeAll, List.singleton_append, compute_i2l hle hlt, Option.bind_some,
          NumOp.computeAll]
      · exact computeAll_fromInt htarget _

end Integral

/-- The conversion from a kind of integers to another puts in the place of an integer the one
integer of the target that differs from it by a multiple of `2 ^ bits`, and touches nothing
below.  If the target has all integers of the source, no number is changed, and the conversion
back undoes it.  A conversion by way of a third kind, with at least as many bits as the target,
ends as the direct one. -/
theorem conversion_of_integers (source target : Integral) :
    (∀ {ρ : Type} (v : source.Value) (below : List (Slot ρ)),
        source.prim.convert? target.prim (source.prim.slots v ++ below) =
          some (target.prim.slots (target.reduce (source.number v)) ++ below)) ∧
      (∀ (n : Int) (w : target.Value),
        (2 ^ target.bits : Int) ∣ target.number w - n ↔ w = target.reduce n) ∧
      ((∀ v : source.Value, ∃ w : target.Value, target.number w = source.number v) →
        ∀ {ρ : Type} (v : source.Value) (below : List (Slot ρ)),
          ∃ w : target.Value, target.number w = source.number v ∧
            source.prim.convert? target.prim (source.prim.slots v ++ below) =
              some (target.prim.slots w ++ below) ∧
            target.prim.convert? source.prim (target.prim.slots w ++ below) =
              some (source.prim.slots v ++ below)) ∧
      ∀ middle : Integral, target.bits ≤ middle.bits →
        ∀ {ρ : Type} (v : source.Value) (below : List (Slot ρ)),
          (source.prim.convert? middle.prim (source.prim.slots v ++ below)).bind
              (middle.prim.convert? target.prim) =
            source.prim.convert? target.prim (source.prim.slots v ++ below) := by
  refine ⟨?_, ?_, ?_, ?_⟩
  · intro ρ v below
    exact Integral.convert?_slots source target v below
  · intro n w
    exact Integral.dvd_number_sub_iff w
  · intro hcontained ρ v below
    obtain ⟨w, hw⟩ := hcontained v
    have hforth := Integral.convert?_slots source target v below
    have hback := Integral.convert?_slots target source w below
    rw [← hw, Integral.reduce_number] at hforth
    rw [hw, Integral.reduce_number] at hback
    exact ⟨w, hw, hforth, hback⟩
  · intro middle hbits ρ v below
    rw [Integral.convert?_slots, Option.bind_some, Integral.convert?_slots,
      Integral.convert?_slots, Integral.reduce_number_reduce hbits]

/-- The last code unit is kept as an int and comes back from it.  A long is cut down to a byte
by way of a code unit, whose sign is lost on the way, as it is cut down at once. -/
theorem conversion_of_integers_unit :
    (∃ w : Int32, w.toInt = 65535 ∧
      Prim.convert? .char .int [.word 0xFFFF] = some ([.word w.toBitVec] : List (Slot Unit)) ∧
      Prim.convert? .int .char [.word w.toBitVec] = some ([.word 0xFFFF] : List (Slot Unit))) ∧
    (Prim.convert? .long .char (Slot.wide 0x123456789ABCDEFF : List (Slot Unit))).bind
        (Prim.convert? .char .byte) =
      Prim.convert? .long .byte (Slot.wide 0x123456789ABCDEFF) := by
  have hcontained : ∀ v : UInt16, ∃ w : Int32, w.toInt = v.toNat := fun v =>
    ⟨v.toUInt32.toInt32, Literal.toInt_unit v⟩
  obtain ⟨-, -, hkept, -⟩ := conversion_of_integers .char .int
  obtain ⟨-, -, -, hshort⟩ := conversion_of_integers .long .byte
  exact ⟨hkept hcontained (65535 : UInt16) [],
    hshort .char (by decide) (0x123456789ABCDEFF : Int64) []⟩

end Lockstep
