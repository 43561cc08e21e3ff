import Mathlib
import Lockstep.Proofs.Flow.Exploration

/-!
# What the verdict on code means

The check of heights is exact.  It accepts code, with a height at the end, exactly
if the labels are in order and the machine that counts slots within the limit gets
stuck on no path, agrees with itself at every position, and runs off the end with
that height (`verify_eq_ok_iff`).  If it rejects the code, what it reports is so
(`genuine_of_verify_error`).

The paths that count are all paths, of any length; a path that underflows is
followed on, from the height zero, so that there is something to be said about it.
-/

namespace Lockstep.Flow

variable {limit entry final : Nat} {code : List Instr}

/-! ## Paths of the counting machines -/

/-- No instruction on a path pops more than there is, or leaves more than the
limit. -/
def WithinBounds (limit : Nat) (code : List Instr) (entry : Nat) : Prop :=
  ∀ {p height : Nat} {i : Instr}, Reaches Instr.unchecked code entry p height →
    code[p]? = some i → i.effect.pops ≤ height ∧ i.heightAfter height ≤ limit

/-- All paths to a position arrive with one height. -/
def OneHeight (code : List Instr) (entry : Nat) : Prop :=
  ∀ {p x y : Nat}, Reaches Instr.unchecked code entry p x →
    Reaches Instr.unchecked code entry p y → x = y

theorem reaches_unchecked_of_within {p height : Nat}
    (h : Reaches (Instr.within limit) code entry p height) :
    Reaches Instr.unchecked code entry p height := by
  induction h with
  | start => exact .start
  | step _ hi hact hgoes ih =>
      obtain ⟨-, -, rfl⟩ := Instr.within_eq_some_iff.mp hact
      exact .step ih hi rfl hgoes

theorem WithinBounds.reaches_within (h : WithinBounds limit code entry) {p height : Nat}
    (hreach : Reaches Instr.unchecked code entry p height) :
    Reaches (Instr.within limit) code entry p height := by
  induction hreach with
  | start => exact .start
  | step hreach hi hact hgoes ih =>
      cases hact
      obtain ⟨hpops, hlimit⟩ := h hreach hi
      exact .step ih hi (Instr.within_eq_some_iff.mpr ⟨hpops, hlimit, rfl⟩) hgoes

/-- The checked machine is carried through code exactly if the unchecked one is,
within the bounds. -/
theorem carries_within_iff :
    Carries (Instr.within limit) code entry final ↔
      WithinBounds limit code entry ∧ OneHeight code entry ∧
        Reaches Instr.unchecked code entry code.length final := by
  constructor
  · intro h
    have hback : ∀ {p x}, Reaches Instr.unchecked code entry p x →
        Reaches (Instr.within limit) code entry p x := by
      intro p x hx
      have hsame : ∀ {i : Instr} {s s' t' : Nat}, i.within limit s = some s' →
          i.unchecked s = some t' → s' = t' := by
        intro i s s' t' hstep hstep'
        obtain ⟨-, -, heq⟩ := Instr.within_eq_some_iff.mp hstep
        exact heq.symm.trans (Option.some.inj hstep')
      obtain ⟨y, hy, rfl⟩ := h.exists_of_reaches id (fun _ _ => hsame) hx
      exact hy
    refine ⟨fun hx hi => ?_, fun hx hy => h.agree (hback hx) (hback hy),
      reaches_unchecked_of_within h.ends⟩
    obtain ⟨y, hy⟩ := Option.isSome_iff_exists.mp (h.progress (hback hx) hi)
    obtain ⟨hpops, hlimit, -⟩ := Instr.within_eq_some_iff.mp hy
    exact ⟨hpops, hlimit⟩
  · rintro ⟨hbounds, hone, hends⟩
    refine ⟨fun hx hi => ?_, fun hx hy => ?_, hbounds.reaches_within hends⟩
    · obtain ⟨hpops, hlimit⟩ := hbounds (reaches_unchecked_of_within hx) hi
      exact Option.isSome_of_eq_some (Instr.within_eq_some_iff.mpr ⟨hpops, hlimit, rfl⟩)
    · exact hone (reaches_unchecked_of_within hx) (reaches_unchecked_of_within hy)

/-! ## The start of the exploration -/

/-- The heights before the first block is walked through. -/
def firstHeights (code : List Instr) (entry : Nat) : List (Option Nat) :=
  (List.replicate (blocksOf code).length none).set 0 (some entry)

theorem getElem?_firstHeights {k x : Nat} (h : (firstHeights code entry)[k]? = some (some x)) :
    k = 0 ∧ x = entry := by
  unfold firstHeights at h
  by_cases hk : k = 0
  · subst hk
    obtain ⟨hlt, hget⟩ := List.getElem?_eq_some_iff.mp h
    rw [List.getElem_set_self, Option.some.injEq] at hget
    exact ⟨rfl, hget.symm⟩
  · rw [List.getElem?_set_ne (Ne.symm hk), List.getElem?_replicate] at h
    split at h <;> cases h

theorem firstHeights_zero (h : code ≠ []) :
    (firstHeights code entry)[0]? = some (some entry) := by
  obtain ⟨b, hb, -⟩ := exists_first_block h
  refine List.getElem?_set_self ?_
  rw [List.length_replicate]
  exact (List.getElem?_eq_some_iff.mp hb).1

theorem invariant_firstHeights (h : code ≠ []) :
    Invariant limit code entry none (firstHeights code entry) [0] where
  length := by rw [firstHeights, List.length_set, List.length_replicate]
  grounded := by
    intro k b height hb hheight
    obtain ⟨rfl, rfl⟩ := getElem?_firstHeights hheight
    obtain ⟨b', hb', hstart⟩ := exists_first_block h
    obtain rfl : b = b' := by simpa [hb] using hb'
    rw [hstart]
    exact .start
  exit := fun hnone => by cases hnone
  walked := by
    intro k b height _ hheight
    obtain ⟨rfl, -⟩ := getElem?_firstHeights hheight
    exact .inl List.mem_cons_self

/-! ## The verdict -/

theorem verify_eq (h : code ≠ []) :
    verify limit code entry =
      match Graph.ofCode code with
      | .error d => .error d
      | .ok g =>
        match explore code limit g none
          ((List.replicate g.blocks.length none).set 0 (some entry)) [0] with
        | .error d => .error d
        | .ok none => .error .noFallThrough
        | .ok (some height) => .ok height := by
  unfold verify
  exact if_neg (by simpa using h)

/-- When the exploration ends, all paths are covered by what it has settled. -/
theorem covered_of_explore_ok (h : code ≠ []) (hlabels : WellLabelled code) {off : Option Nat}
    (hexplore : explore code limit ⟨blocksOf code⟩ none (firstHeights code entry) [0] = .ok off) :
    ∃ heights, Invariant limit code entry off heights [] ∧
      ∀ {p height}, Reaches Instr.unchecked code entry p height →
        Covered limit code off heights p height := by
  obtain ⟨heights, hinv, hkeeps⟩ :=
    exists_invariant_of_explore_ok hlabels hexplore (invariant_firstHeights h)
  refine ⟨heights, hinv, fun hreach => covered_of_reaches hlabels hinv ?_ hreach⟩
  obtain ⟨b, hb, hstart⟩ := exists_first_block h
  refine .inl ⟨0, 0, b, entry, hb, hkeeps _ _ (firstHeights_zero h), by omega, ?_, rfl⟩
  have := start_lt_stop hb
  omega

/-- What is reported about rejected code is so. -/
theorem genuine_of_verify_error {d : Defect} (h : verify limit code entry = .error d) :
    d.Genuine limit code entry := by
  have hne : code ≠ [] := by
    rintro rfl
    cases h
  rw [verify_eq hne] at h
  split at h
  · next d' hgraph =>
    cases h
    rcases ofCode_eq_error hgraph with
      ⟨p, label, rfl, hp, hbefore⟩ | ⟨p, label, i, rfl, hp, htarget, hmem⟩
    · exact ⟨hp, hbefore⟩
    · exact ⟨⟨i, hp, htarget⟩, fun q hq => hmem (List.mem_of_getElem? hq)⟩
  · next g hgraph =>
    obtain ⟨hlabels, rfl⟩ := ofCode_eq_ok hgraph
    split at h
    · next d' hexplore =>
      cases h
      exact genuine_of_explore_error hlabels hexplore (invariant_firstHeights hne)
    · next hexplore =>
      cases h
      obtain ⟨heights, -, hcovered⟩ := covered_of_explore_ok hne hlabels hexplore
      intro height hreach
      rcases hcovered hreach with ⟨k, n, b, first, hb, -, -, hlt, -⟩ | ⟨-, hnone⟩
      · exact absurd hlt (Nat.not_lt_of_le (stop_le_length hb))
      · cases hnone
    · cases h

/-- Heights that do not agree are reported at a position in the code; and if control gets
there from the first block, the expected height is the one at the end of that block. -/
theorem settled_of_verify_mismatch {p expected actual : Nat}
    (h : verify limit code entry = .error (.heightMismatch p expected actual)) :
    p < code.length ∧ ∀ (b : Block) (after : Nat), (blocksOf code)[0]? = some b →
      runs (Instr.within limit) (b.body code) entry = some after →
        Goes code (b.stop - 1) p → 0 < p → expected = after := by
  have hne : code ≠ [] := by
    rintro rfl
    cases h
  rw [verify_eq hne] at h
  split at h
  · next d hgraph =>
    cases h
    rcases ofCode_eq_error hgraph with ⟨_, _, hd, -⟩ | ⟨_, _, _, hd, -⟩ <;> cases hd
  · next g hgraph =>
    obtain ⟨hlabels, rfl⟩ := ofCode_eq_ok hgraph
    have hexplore : explore code limit ⟨blocksOf code⟩ none (firstHeights code entry) [0] =
        .error (.heightMismatch p expected actual) := by
      split at h
      · next hexplore =>
        cases h
        exact hexplore
      · cases h
      · cases h
    obtain ⟨k, ⟨b', hb', rfl⟩, -⟩ := settled_of_explore_mismatch hlabels hexplore
    refine ⟨lt_length_of_mem_starts (start_mem_starts hb'), fun b after hb hruns hgoes hpos => ?_⟩
    -- the first block is walked through before any other
    unfold explore at hexplore
    simp only [hb, firstHeights_zero hne, walk_eq_ok_iff.mpr hruns] at hexplore
    split at hexplore
    · next d hspread =>
      -- only the first block itself is settled so far
      cases hexplore
      obtain ⟨j, -, x, hx, -, hd⟩ := exists_of_spread_error hspread
      obtain ⟨rfl, -⟩ := getElem?_firstHeights hx
      have hzero := (getElem?_blocksOf_iff.mp hb).1
      rw [starts_getElem?_zero hne, Option.some.injEq] at hzero
      simp only [hb, Option.map_some, Option.getD_some, Defect.heightMismatch.injEq] at hd
      omega
    · next next hspread =>
      obtain ⟨j, hj, hexpected⟩ := settled_of_explore_mismatch hlabels hexplore
      have hlt : b'.start < code.length := lt_length_of_mem_starts (start_mem_starts hb')
      have hmem : j ∈ b.successors := (mem_successors_iff hlabels hb).mpr ⟨_, hlt, hgoes, hj⟩
      obtain ⟨bj, hbj, -⟩ := hj
      have hfree : j < (firstHeights code entry).length := by
        rw [firstHeights, List.length_set, List.length_replicate]
        exact (List.getElem?_eq_some_iff.mp hbj).1
      exact (hexpected after ((spreads_of_spread_ok hspread).settles hmem hfree)).symm

/-- Accepted code is well labelled, and leads to the height in the verdict. -/
theorem carries_of_verify_ok (h : verify limit code entry = .ok final) :
    WellLabelled code ∧ Carries (Instr.within limit) code entry final := by
  by_cases hne : code = []
  · subst hne
    cases h
    exact ⟨.nil, .of_runs (fun _ hi => by cases hi) rfl⟩
  · rw [verify_eq hne] at h
    split at h
    · cases h
    · next g hgraph =>
      obtain ⟨hlabels, rfl⟩ := ofCode_eq_ok hgraph
      split at h
      · cases h
      · cases h
      · next height hexplore =>
        cases h
        obtain ⟨heights, hinv, hcovered⟩ := covered_of_explore_ok hne hlabels hexplore
        refine ⟨hlabels, carries_within_iff.mpr ⟨fun hx hi => ?_, fun hx hy => ?_, ?_⟩⟩
        · obtain ⟨hpops, hlimit, -⟩ :=
            Instr.within_eq_some_iff.mp ((hcovered hx).step hlabels hinv hi).1
          exact ⟨hpops, hlimit⟩
        · exact (hcovered hx).unique (hcovered hy)
        · exact reaches_unchecked_of_within (hinv.exit rfl)

/-- Code that carries under one limit can only overflow under another. -/
theorem Carries.eq_overflow_of_genuine {limit' : Nat} {d : Defect} (hlabels : WellLabelled code)
    (h : Carries (Instr.within limit) code entry final) (hd : d.Genuine limit' code entry) :
    ∃ p height, d = .overflow p height limit' := by
  obtain ⟨hbounds, hone, hends⟩ := carries_within_iff.mp h
  cases d with
  | unknownLabel p label =>
      obtain ⟨⟨i, hi, htarget⟩, hmark⟩ := hd
      obtain ⟨q, hq⟩ :=
        List.mem_iff_getElem?.mp (hlabels.marked i (List.mem_of_getElem? hi) label htarget)
      exact absurd hq (hmark q)
  | duplicateLabel p label =>
      obtain ⟨hp, q, hlt, hq⟩ := hd
      exact absurd (position_eq_of_nodup_marks hlabels.distinct hq hp) hlt.ne
  | heightMismatch p expected actual =>
      obtain ⟨hx, hy, hne⟩ := hd
      exact absurd (hone (reaches_unchecked_of_within hx) (reaches_unchecked_of_within hy)) hne
  | underflow p required actual =>
      obtain ⟨hx, i, hi, rfl, hlt⟩ := hd
      exact absurd (hbounds (reaches_unchecked_of_within hx) hi).1 (Nat.not_le_of_lt hlt)
  | overflow p height most =>
      obtain ⟨rfl, -⟩ := hd
      exact ⟨p, height, rfl⟩
  | noFallThrough => exact absurd hends (hd final)

/-- Code without a defect has none to report. -/
theorem Carries.not_genuine (hlabels : WellLabelled code)
    (h : Carries (Instr.within limit) code entry final) (d : Defect) :
    ¬ d.Genuine limit code entry := by
  intro hd
  obtain ⟨p, height, rfl⟩ := h.eq_overflow_of_genuine hlabels hd
  obtain ⟨-, hlt, i, before, hx, hi, -, rfl⟩ := hd
  exact absurd ((carries_within_iff.mp h).1 (reaches_unchecked_of_within hx) hi).2
    (Nat.not_le_of_lt hlt)

/-- The check is exact. -/
theorem verify_eq_ok_iff :
    verify limit code entry = .ok final ↔
      WellLabelled code ∧ Carries (Instr.within limit) code entry final := by
  refine ⟨carries_of_verify_ok, fun ⟨hlabels, hcarries⟩ => ?_⟩
  cases h : verify limit code entry with
  | error d => exact absurd (genuine_of_verify_error h) (hcarries.not_genuine hlabels d)
  | ok height => rw [hcarries.agree hcarries.ends (carries_of_verify_ok h).2.ends]

/-- Under any other limit accepted code is accepted with the same height, or it
overflows. -/
theorem Carries.verify_eq_ok_or_overflow (hlabels : WellLabelled code)
    (h : Carries (Instr.within limit) code entry final) (limit' : Nat) :
    verify limit' code entry = .ok final ∨
      ∃ p height, verify limit' code entry = .error (.overflow p height limit') := by
  cases hverify : verify limit' code entry with
  | ok height =>
      obtain ⟨-, hone, hends⟩ := carries_within_iff.mp h
      have hends' := reaches_unchecked_of_within (carries_of_verify_ok hverify).2.ends
      rw [hone hends hends']
      exact .inl rfl
  | error d =>
      obtain ⟨p, height, rfl⟩ := h.eq_overflow_of_genuine hlabels (genuine_of_verify_error hverify)
      exact .inr ⟨p, height, rfl⟩

/-! ## Soundness and completeness -/

end Lockstep.Flow
