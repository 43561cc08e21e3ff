import Mathlib.Data.Nat.Basic
import Mathlib.Order.Basic
import Lockstep.Flow.Graph

/-!
# Paths through code

What control can do, without blocks or graphs: from an instruction it goes to the
next position, unless the instruction is an unconditional jump, and to every mark
of the label that a jump names.

A machine is given by what an instruction does to its state, if the state admits
the instruction at all.  `Reaches act code s p x` says that some path leads the
machine `act` from the beginning of the code and state `s` to position `p` and
state `x`; the position past the end counts.  The same relation serves for
heights, for stacks of carriers, and for any other reading of a stack.

`Carries act code s t` is what all paths together have to satisfy: none gets
stuck, any two that meet agree, and the end is reached, with state `t`.

## Strategy

Code is put together from fragments, so what matters is how `Carries` behaves
under concatenation (`Carries.append`).  A path through `a ++ b` is a path
through `a`, and then perhaps one through `b`, as long as no jump crosses: every
label that one part names has to be marked in that part and not in the other.
-/

namespace Lockstep

/-- Whether control can go on to the next position. -/
def Instr.fallsThrough : Instr → Bool
  | .goto _ => false
  | _ => true

namespace Flow

variable {σ τ : Type}

/-- Control can go from one position to another. -/
inductive Goes (code : List Instr) (p : Nat) : Nat → Prop
  | falls {i : Instr} : code[p]? = some i → i.fallsThrough = true → Goes code p (p + 1)
  | jumps {i : Instr} {label : Label} {q : Nat} : code[p]? = some i →
      i.target? = some label → code[q]? = some (.mark label) → Goes code p q

/-- Some path leads a machine from the beginning of the code in one state to a
position in another. -/
inductive Reaches (act : Instr → σ → Option σ) (code : List Instr) (s : σ) : Nat → σ → Prop
  | start : Reaches act code s 0 s
  | step {p q : Nat} {i : Instr} {x y : σ} : Reaches act code s p x → code[p]? = some i →
      act i x = some y → Goes code p q → Reaches act code s q y

/-- Code leads a machine from one state to another, whatever path it takes. -/
structure Carries (act : Instr → σ → Option σ) (code : List Instr) (s t : σ) : Prop where
  /-- No path gets stuck. -/
  progress : ∀ {p x i}, Reaches act code s p x → code[p]? = some i → (act i x).isSome
  /-- All paths to a position arrive in the same state. -/
  agree : ∀ {p x y}, Reaches act code s p x → Reaches act code s p y → x = y
  /-- Some path runs off the end. -/
  ends : Reaches act code s code.length t

/-! ## Where control can go -/

theorem Goes.exists_instr {code : List Instr} {p q : Nat} (h : Goes code p q) :
    ∃ i, code[p]? = some i := by
  cases h with
  | falls hi _ => exact ⟨_, hi⟩
  | jumps hi _ _ => exact ⟨_, hi⟩

theorem lt_length_of_getElem? {code : List Instr} {p : Nat} {i : Instr}
    (h : code[p]? = some i) : p < code.length :=
  (List.getElem?_eq_some_iff.mp h).1

theorem Goes.lt_length {code : List Instr} {p q : Nat} (h : Goes code p q) :
    p < code.length := by
  obtain ⟨i, hi⟩ := h.exists_instr
  exact lt_length_of_getElem? hi

/-- Control stays within the code, or runs off its end. -/
theorem Goes.le_length {code : List Instr} {p q : Nat} (h : Goes code p q) :
    q ≤ code.length := by
  cases h with
  | falls hi _ => exact lt_length_of_getElem? hi
  | jumps _ _ hq => exact (lt_length_of_getElem? hq).le

theorem Reaches.le_length {act : Instr → σ → Option σ} {code : List Instr} {s x : σ} {p : Nat}
    (h : Reaches act code s p x) : p ≤ code.length := by
  cases h with
  | start => exact Nat.zero_le _
  | step _ _ _ hgoes => exact hgoes.le_length

/-- From an instruction that is no jump, control goes on to the next position
and nowhere else. -/
theorem goes_iff_of_target?_eq_none {code : List Instr} {p q : Nat} {i : Instr}
    (hi : code[p]? = some i) (htarget : i.target? = none) : Goes code p q ↔ q = p + 1 := by
  constructor
  · intro h
    cases h with
    | falls _ _ => rfl
    | jumps hj hlabel _ =>
        rw [hi, Option.some.injEq] at hj
        rw [← hj, htarget] at hlabel
        cases hlabel
  · rintro rfl
    refine .falls hi ?_
    cases i <;> first | rfl | cases htarget

/-- From an unconditional jump control goes to the marks of its label. -/
theorem goes_goto_iff {code : List Instr} {p q : Nat} {label : Label}
    (hi : code[p]? = some (.goto label)) :
    Goes code p q ↔ code[q]? = some (.mark label) := by
  refine ⟨fun h => ?_, fun hq => .jumps hi rfl hq⟩
  cases h with
  | falls hj hfalls =>
      rw [hi, Option.some.injEq] at hj
      cases hj
      cases hfalls
  | jumps hj hlabel hq =>
      rw [hi, Option.some.injEq] at hj
      cases hj
      cases hlabel
      exact hq

/-- From a conditional jump control goes to the marks of its label, or on. -/
theorem goes_jump_iff {code : List Instr} {p q : Nat} {cond : Cond} {label : Label}
    (hi : code[p]? = some (.jump cond label)) :
    Goes code p q ↔ code[q]? = some (.mark label) ∨ q = p + 1 := by
  constructor
  · intro h
    cases h with
    | falls _ _ => exact .inr rfl
    | jumps hj hlabel hq =>
        rw [hi, Option.some.injEq] at hj
        cases hj
        cases hlabel
        exact .inl hq
  · rintro (hq | rfl)
    · exact .jumps hi rfl hq
    · exact .falls hi rfl

/-! ## Labels -/

/-- Every label is marked at most once, and every label that is named is
marked. -/
structure WellLabelled (code : List Instr) : Prop where
  distinct : (code.filterMap Instr.marked?).Nodup
  marked : ∀ i ∈ code, ∀ label, i.target? = some label → Instr.mark label ∈ code

/-- No label is marked in both of two pieces of code. -/
def Apart (a b : List Instr) : Prop :=
  ∀ label, Instr.mark label ∈ a → Instr.mark label ∉ b

theorem Apart.symm {a b : List Instr} (h : Apart a b) : Apart b a :=
  fun label hb ha => h label ha hb

theorem mem_marks_iff {code : List Instr} {label : Label} :
    label ∈ code.filterMap Instr.marked? ↔ Instr.mark label ∈ code := by
  rw [List.mem_filterMap]
  constructor
  · rintro ⟨i, hi, hmarked⟩
    cases i <;> simp_all [Instr.marked?]
  · intro h
    exact ⟨_, h, rfl⟩

theorem WellLabelled.nil : WellLabelled [] := ⟨List.nodup_nil, by simp⟩

theorem WellLabelled.append {a b : List Instr} (ha : WellLabelled a) (hb : WellLabelled b)
    (hapart : Apart a b) : WellLabelled (a ++ b) := by
  constructor
  · rw [List.filterMap_append, List.nodup_append]
    refine ⟨ha.distinct, hb.distinct, fun label hla other hlb heq => ?_⟩
    rw [mem_marks_iff] at hla hlb
    exact hapart label hla (heq ▸ hlb)
  · intro i hi label htarget
    rcases List.mem_append.mp hi with hi | hi
    · exact List.mem_append_left _ (ha.marked i hi label htarget)
    · exact List.mem_append_right _ (hb.marked i hi label htarget)

/-- A label is marked at one position only. -/
theorem position_eq_of_nodup_marks {code : List Instr}
    (h : (code.filterMap Instr.marked?).Nodup) {p q : Nat} {label : Label}
    (hp : code[p]? = some (.mark label)) (hq : code[q]? = some (.mark label)) : p = q := by
  induction code generalizing p q with
  | nil => simp at hp
  | cons i rest ih =>
      have hrest : (rest.filterMap Instr.marked?).Nodup := by
        refine h.sublist ?_
        rw [List.filterMap_cons]
        split
        · exact List.Sublist.refl _
        · exact List.sublist_cons_self _ _
      -- a mark in front is not repeated behind
      have hfirst : ∀ r : Nat, i = .mark label → rest[r]? ≠ some (Instr.mark label) := by
        rintro r rfl hr
        rw [show (Instr.mark label :: rest).filterMap Instr.marked? =
          label :: rest.filterMap Instr.marked? from rfl, List.nodup_cons] at h
        exact h.1 (mem_marks_iff.mpr (List.mem_of_getElem? hr))
      cases p with
      | zero =>
          cases q with
          | zero => rfl
          | succ q => exact absurd hq (hfirst q (by simpa using hp))
      | succ p =>
          cases q with
          | zero => exact absurd hp (hfirst p (by simpa using hq))
          | succ q => rw [ih hrest hp hq]

/-- From every instruction control goes somewhere. -/
theorem WellLabelled.exists_goes {code : List Instr} (h : WellLabelled code) {p : Nat} {i : Instr}
    (hi : code[p]? = some i) : ∃ q, Goes code p q := by
  cases hfalls : i.fallsThrough with
  | true => exact ⟨p + 1, .falls hi hfalls⟩
  | false =>
      obtain ⟨label, hlabel⟩ : ∃ label, i.target? = some label := by
        cases i <;> simp_all [Instr.fallsThrough, Instr.target?]
      have hmark := h.marked i (List.mem_of_getElem? hi) label hlabel
      obtain ⟨q, hq⟩ := List.mem_iff_getElem?.mp hmark
      exact ⟨q, .jumps hi hlabel hq⟩

/-! ## Concatenation -/

theorem Goes.append_left {a b : List Instr} {p q : Nat} (h : Goes a p q) :
    Goes (a ++ b) p q := by
  cases h with
  | falls hi hfalls =>
      exact .falls (by rw [List.getElem?_append_left (lt_length_of_getElem? hi), hi]) hfalls
  | jumps hi htarget hq =>
      exact .jumps (by rw [List.getElem?_append_left (lt_length_of_getElem? hi), hi]) htarget
        (by rw [List.getElem?_append_left (lt_length_of_getElem? hq), hq])

theorem getElem?_append_add (a b : List Instr) (p : Nat) :
    (a ++ b)[a.length + p]? = b[p]? := by
  rw [List.getElem?_append_right (Nat.le_add_right _ _), Nat.add_sub_cancel_left]

theorem Goes.append_right {a b : List Instr} {p q : Nat} (h : Goes b p q) :
    Goes (a ++ b) (a.length + p) (a.length + q) := by
  cases h with
  | falls hi hfalls => exact .falls (by rw [getElem?_append_add, hi]) hfalls
  | jumps hi htarget hq =>
      exact .jumps (by rw [getElem?_append_add, hi]) htarget (by rw [getElem?_append_add, hq])

/-- No jump leaves the first part. -/
theorem Goes.of_append_left {a b : List Instr} (ha : WellLabelled a) (hapart : Apart a b)
    {p q : Nat} (hp : p < a.length) (h : Goes (a ++ b) p q) : Goes a p q := by
  cases h with
  | falls hi hfalls =>
      rw [List.getElem?_append_left hp] at hi
      exact .falls hi hfalls
  | jumps hi htarget hq =>
      rw [List.getElem?_append_left hp] at hi
      have hmark := ha.marked _ (List.mem_of_getElem? hi) _ htarget
      rcases Nat.lt_or_ge q a.length with hlt | hge
      · rw [List.getElem?_append_left hlt] at hq
        exact .jumps hi htarget hq
      · rw [List.getElem?_append_right hge] at hq
        exact absurd (List.mem_of_getElem? hq) (hapart _ hmark)

/-- No jump leaves the second part. -/
theorem Goes.of_append_right {a b : List Instr} (hb : WellLabelled b) (hapart : Apart a b)
    {p q : Nat} (h : Goes (a ++ b) (a.length + p) q) :
    ∃ r, q = a.length + r ∧ Goes b p r := by
  cases h with
  | falls hi hfalls =>
      rw [getElem?_append_add] at hi
      exact ⟨p + 1, rfl, .falls hi hfalls⟩
  | jumps hi htarget hq =>
      rw [getElem?_append_add] at hi
      have hmark := hb.marked _ (List.mem_of_getElem? hi) _ htarget
      rcases Nat.lt_or_ge q a.length with hlt | hge
      · rw [List.getElem?_append_left hlt] at hq
        exact absurd hmark (hapart _ (List.mem_of_getElem? hq))
      · obtain ⟨r, rfl⟩ := Nat.exists_eq_add_of_le hge
        rw [getElem?_append_add] at hq
        exact ⟨r, rfl, .jumps hi htarget hq⟩

section Append

variable {act : Instr → σ → Option σ} {a b : List Instr} {s t u x : σ} {p : Nat}

theorem Reaches.append_left (h : Reaches act a s p x) : Reaches act (a ++ b) s p x := by
  induction h with
  | start => exact .start
  | step _ hi hact hgoes ih =>
      exact .step ih (by rw [List.getElem?_append_left (lt_length_of_getElem? hi), hi]) hact
        hgoes.append_left

/-- A path through the first part goes on with one through the second. -/
theorem Reaches.append_right (ha : Reaches act a s a.length t) (h : Reaches act b t p x) :
    Reaches act (a ++ b) s (a.length + p) x := by
  induction h with
  | start => exact ha.append_left
  | step _ hi hact hgoes ih =>
      exact .step ih (by rw [getElem?_append_add, hi]) hact hgoes.append_right

/-- A path through both parts is inside the first, or has gone through it and is
somewhere in the second. -/
theorem Reaches.of_append (hla : WellLabelled a) (hlb : WellLabelled b) (hapart : Apart a b)
    (ha : Carries act a s t) (h : Reaches act (a ++ b) s p x) :
    (p < a.length ∧ Reaches act a s p x) ∨
      ∃ r, p = a.length + r ∧ Reaches act b t r x := by
  -- at the seam, where the first part ends, the second takes over
  have seam : ∀ {q y}, Reaches act a s q y →
      (q < a.length ∧ Reaches act a s q y) ∨ ∃ r, q = a.length + r ∧ Reaches act b t r y := by
    intro q y hq
    rcases hq.le_length.lt_or_eq with hlt | rfl
    · exact .inl ⟨hlt, hq⟩
    · exact .inr ⟨0, rfl, ha.agree hq ha.ends ▸ .start⟩
  induction h with
  | start => exact seam .start
  | step _ hi hact hgoes ih =>
      rcases ih with ⟨hlt, hreach⟩ | ⟨r, rfl, hreach⟩
      · have hin := hgoes.of_append_left hla hapart hlt
        rw [List.getElem?_append_left hlt] at hi
        exact seam (.step hreach hi hact hin)
      · obtain ⟨r', rfl, hin⟩ := hgoes.of_append_right hlb hapart
        rw [getElem?_append_add] at hi
        exact .inr ⟨r', rfl, .step hreach hi hact hin⟩

/-- Fragments whose labels do not get into each other's way compose. -/
theorem Carries.append (hla : WellLabelled a) (hlb : WellLabelled b) (hapart : Apart a b)
    (ha : Carries act a s t) (hb : Carries act b t u) : Carries act (a ++ b) s u := by
  constructor
  · intro p x i h hi
    rcases h.of_append hla hlb hapart ha with ⟨hlt, hin⟩ | ⟨r, rfl, hin⟩
    · rw [List.getElem?_append_left hlt] at hi
      exact ha.progress hin hi
    · rw [getElem?_append_add] at hi
      exact hb.progress hin hi
  · intro p x y hx hy
    rcases hx.of_append hla hlb hapart ha with ⟨hlt, hinx⟩ | ⟨r, hr, hinx⟩ <;>
      rcases hy.of_append hla hlb hapart ha with ⟨hlt', hiny⟩ | ⟨r', hr', hiny⟩
    · exact ha.agree hinx hiny
    · omega
    · omega
    · obtain rfl : r = r' := by omega
      exact hb.agree hinx hiny
  · rw [List.length_append]
    exact ha.ends.append_right hb.ends

end Append

end Flow

end Lockstep
