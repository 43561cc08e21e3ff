import Mathlib
import Lockstep.Proofs.Flow.Verdict

/-!
# Checking code fragment by fragment

Code that is put together from fragments need not be checked as a whole.  Where the
fragments mark no label in common, it is enough to check each of them at the height
that the one before it has left.

Blocks do not compose: the last block of a fragment can grow into the first of the
next one, a conditional jump at the end gets a second successor, and all positions
behind it move.  Paths do compose, and the verdict is a statement about paths
(`verify_eq_ok_iff`).  So the two directions of `verify_append_iff` are
`Carries.append` and, for what is left of a way through both fragments when the first
is behind, `Carries.of_append`.
-/

namespace Lockstep.Flow

/-! ## Paths -/

section Paths

variable {σ : Type} {act : Instr → σ → Option σ} {a b : List Instr} {s t u : σ}

/-- Code that carries a machine through both fragments carries it through the second
from where the first has left it. -/
theorem Carries.of_append (hla : WellLabelled a) (hlb : WellLabelled b) (hapart : Apart a b)
    (ha : Carries act a s t) (h : Carries act (a ++ b) s u) : Carries act b t u := by
  have hinto : ∀ {p x}, Reaches act b t p x → Reaches act (a ++ b) s (a.length + p) x :=
    fun hreach => ha.ends.append_right hreach
  constructor
  · intro p x i hreach hi
    exact h.progress (hinto hreach) (by rw [getElem?_append_add, hi])
  · intro p x y hx hy
    exact h.agree (hinto hx) (hinto hy)
  · have hends := h.ends
    rw [List.length_append] at hends
    rcases hends.of_append hla hlb hapart ha with ⟨hlt, -⟩ | ⟨r, hr, hreach⟩
    · omega
    · obtain rfl : b.length = r := by omega
      exact hreach

end Paths

/-! ## Verdicts -/

variable {limit entry middle final : Nat} {a b : List Instr}

/-- Behind an accepted fragment the verdict on the whole is that on the rest. -/
theorem verify_append_iff (hlb : WellLabelled b) (hapart : Apart a b)
    (ha : verify limit a entry = .ok middle) :
    verify limit (a ++ b) entry = .ok final ↔ verify limit b middle = .ok final := by
  obtain ⟨hla, hcarries⟩ := carries_of_verify_ok ha
  rw [verify_eq_ok_iff, verify_eq_ok_iff]
  constructor
  · rintro ⟨-, hboth⟩
    exact ⟨hlb, hcarries.of_append hla hlb hapart hboth⟩
  · rintro ⟨-, hrest⟩
    exact ⟨hla.append hlb hapart, hcarries.append hla hlb hapart hrest⟩

/-- Two fragments without a common label, accepted one after the other, are accepted
together. -/
theorem verify_append (hapart : ∀ label, Instr.mark label ∈ a → Instr.mark label ∉ b)
    (ha : verify limit a entry = .ok middle) (hb : verify limit b middle = .ok final) :
    verify limit (a ++ b) entry = .ok final := by
  have hlb : WellLabelled b := (carries_of_verify_ok hb).1
  exact (verify_append_iff hlb hapart ha).mpr hb

/-- The first fragment ends in a conditional jump back to its start, which goes on to
the second one only when both stand together. -/
theorem verify_append_loop :
    (verify 2 [.mark ⟨0⟩, .intConst 1, .jump .isZero ⟨0⟩] 1 = .ok 1 ∧
      verify 2 [.jump .isNull ⟨1⟩, .nullConst, .pop, .mark ⟨1⟩] 1 = .ok 0) ∧
    verify 2 [.mark ⟨0⟩, .intConst 1, .jump .isZero ⟨0⟩, .jump .isNull ⟨1⟩, .nullConst, .pop,
      .mark ⟨1⟩] 1 = .ok 0 := by
  have hfirst : verify 2 [.mark ⟨0⟩, .intConst 1, .jump .isZero ⟨0⟩] 1 = .ok 1 := by cbv
  have hsecond : verify 2 [.jump .isNull ⟨1⟩, .nullConst, .pop, .mark ⟨1⟩] 1 = .ok 0 := by cbv
  refine ⟨⟨hfirst, hsecond⟩, verify_append ?_ hfirst hsecond⟩
  intro label hlabel
  have hzero : label = ⟨0⟩ := by simpa using hlabel
  rw [hzero]
  decide

/-- A whole list of fragments is checked one after the other, with the height handed
on from each to the next. -/
theorem verify_flatten {fragments : List (List Instr)} (hapart : fragments.Pairwise Apart)
    (h : fragments.foldlM (fun height code => verify limit code height) entry = .ok final) :
    verify limit fragments.flatten entry = .ok final := by
  induction fragments generalizing entry with
  | nil => exact h
  | cons code rest ih =>
      rw [List.pairwise_cons] at hapart
      obtain ⟨hcode, hrest⟩ := hapart
      rw [List.foldlM_cons] at h
      cases hverify : verify limit code entry with
      | error defect =>
          rw [hverify] at h
          cases h
      | ok height =>
          rw [hverify] at h
          have haccepted : verify limit rest.flatten height = .ok final := ih hrest h
          have hlabels : WellLabelled rest.flatten := (carries_of_verify_ok haccepted).1
          have hflat : Apart code rest.flatten := by
            intro label hmark hmem
            obtain ⟨other, hother, hin⟩ := List.mem_flatten.mp hmem
            exact hcode other hother label hmark hin
          exact (verify_append_iff hlabels hflat hverify).mpr haccepted

end Lockstep.Flow
