import Mathlib.Tactic.Tauto
import Lockstep.Flow.Heights
import Lockstep.Proofs.Flow.Labels

/-!
# The blocks of a piece of code

A block starts at the beginning, at every mark, and after every jump
(`mem_starts_iff`); it stops where the next one starts, or at the end of the code.
So the blocks follow one another through the whole code (`tiles_blocksOf`), no block
starts inside another (`not_mem_starts_of_inside`), and control moves through them
as the graph says:

* inside a block it only goes on to the next position
  (`goes_iff_of_inside`), because what follows a jump starts a block;
* from the last position of a block it goes to the beginnings of the successors
  (`mem_successors_iff`), because every mark starts a block.
-/

namespace Lockstep.Flow

/-! ## Where blocks start -/

/-- Whether a position comes right after a jump, given that for the first one. -/
def followsJump (afterJump : Bool) (is : List Instr) : Nat → Bool
  | 0 => afterJump
  | k + 1 => (is[k]?.bind Instr.target?).isSome

theorem followsJump_cons_succ (afterJump : Bool) (i : Instr) (rest : List Instr) (k : Nat) :
    followsJump afterJump (i :: rest) (k + 1) = followsJump i.target?.isSome rest k := by
  cases k <;> rfl

theorem mem_startsFrom_cons_iff {position : Nat} {afterJump : Bool} {i : Instr}
    {rest : List Instr} {q : Nat} :
    q ∈ startsFrom position afterJump (i :: rest) ↔
      (q = position ∧ (afterJump = true ∨ i.marked?.isSome = true)) ∨
        q ∈ startsFrom (position + 1) i.target?.isSome rest := by
  rw [startsFrom]
  by_cases h : (afterJump || i.marked?.isSome) = true
  · simp [h, Bool.or_eq_true_iff.mp h]
  · simp [h, Bool.or_eq_true_iff.not.mp h]

theorem mem_startsFrom_iff {position : Nat} {afterJump : Bool} {is : List Instr} {q : Nat} :
    q ∈ startsFrom position afterJump is ↔
      ∃ k i, is[k]? = some i ∧ q = position + k ∧
        (followsJump afterJump is k = true ∨ i.marked?.isSome = true) := by
  induction is generalizing position afterJump with
  | nil => simp [startsFrom]
  | cons i rest ih =>
      rw [mem_startsFrom_cons_iff, ih]
      constructor
      · rintro (⟨rfl, h⟩ | ⟨k, j, hk, rfl, h⟩)
        · exact ⟨0, i, rfl, rfl, h⟩
        · exact ⟨k + 1, j, hk, by omega, by rwa [followsJump_cons_succ]⟩
      · rintro ⟨k, j, hk, rfl, h⟩
        cases k with
        | zero =>
            obtain rfl : i = j := by simpa using hk
            exact .inl ⟨rfl, h⟩
        | succ k =>
            rw [followsJump_cons_succ] at h
            exact .inr ⟨k, j, by simpa using hk, by omega, h⟩

/-- Blocks start at the beginning, after every jump, and at every mark. -/
theorem mem_starts_iff {code : List Instr} {q : Nat} :
    q ∈ starts code ↔
      ∃ i, code[q]? = some i ∧
        (followsJump true code q = true ∨ i.marked?.isSome = true) := by
  unfold starts
  rw [mem_startsFrom_iff]
  constructor
  · rintro ⟨k, i, hi, rfl, h⟩
    rw [Nat.zero_add]
    exact ⟨i, hi, h⟩
  · rintro ⟨i, hi, h⟩
    exact ⟨q, i, hi, (Nat.zero_add q).symm, h⟩

theorem lt_length_of_mem_starts {code : List Instr} {q : Nat} (h : q ∈ starts code) :
    q < code.length := by
  obtain ⟨i, hi, -⟩ := mem_starts_iff.mp h
  exact lt_length_of_getElem? hi

theorem mark_mem_starts {code : List Instr} {q : Nat} {label : Label}
    (h : code[q]? = some (.mark label)) : q ∈ starts code :=
  mem_starts_iff.mpr ⟨_, h, .inr rfl⟩

theorem succ_mem_starts {code : List Instr} {p : Nat} {i : Instr} {label : Label}
    (hi : code[p]? = some i) (htarget : i.target? = some label) (hp : p + 1 < code.length) :
    p + 1 ∈ starts code := by
  refine mem_starts_iff.mpr ⟨_, List.getElem?_eq_getElem hp, .inl ?_⟩
  rw [followsJump, hi, Option.bind_some, htarget, Option.isSome_some]

theorem pairwise_startsFrom (position : Nat) (afterJump : Bool) (is : List Instr) :
    (startsFrom position afterJump is).Pairwise (· < ·) := by
  induction is generalizing position afterJump with
  | nil => exact List.Pairwise.nil
  | cons i rest ih =>
      unfold startsFrom
      split
      · refine List.pairwise_cons.mpr ⟨fun q hq => ?_, ih _ _⟩
        obtain ⟨k, -, -, rfl, -⟩ := mem_startsFrom_iff.mp hq
        omega
      · exact ih _ _

/-- The starts are listed in order, each once. -/
theorem pairwise_starts (code : List Instr) : (starts code).Pairwise (· < ·) :=
  pairwise_startsFrom 0 true code

theorem starts_getElem?_zero {code : List Instr} (h : code ≠ []) :
    (starts code)[0]? = some 0 := by
  cases code with
  | nil => exact absurd rfl h
  | cons i rest => simp [starts, startsFrom]

/-! ## Where blocks stop -/

/-- The past-the-end positions of the blocks. -/
def stops (code : List Instr) : List Nat := (starts code).tail ++ [code.length]

theorem getElem?_blocksOf_iff {code : List Instr} {k : Nat} {b : Block} :
    (blocksOf code)[k]? = some b ↔
      (starts code)[k]? = some b.start ∧ (stops code)[k]? = some b.stop ∧
        b.successors = successors code b.stop := by
  unfold blocksOf spans
  rw [List.getElem?_map, Option.map_eq_some_iff]
  constructor
  · rintro ⟨⟨start, stop⟩, hspan, rfl⟩
    obtain ⟨hstart, hstop⟩ := List.getElem?_zip_eq_some.mp hspan
    exact ⟨hstart, hstop, rfl⟩
  · rintro ⟨hstart, hstop, hsuccessors⟩
    exact ⟨(b.start, b.stop), List.getElem?_zip_eq_some.mpr ⟨hstart, hstop⟩,
      by simp only [← hsuccessors]⟩

/-- A block stops where the next one starts; the last stops at the end. -/
theorem getElem?_stops_cases {code : List Instr} {k stop : Nat}
    (h : (stops code)[k]? = some stop) :
    (starts code)[k + 1]? = some stop ∨ (starts code).length ≤ k + 1 ∧ stop = code.length := by
  unfold stops at h
  rcases Nat.lt_or_ge k (starts code).tail.length with hlt | hge
  · rw [List.getElem?_append_left hlt, List.getElem?_tail] at h
    exact .inl h
  · rw [List.length_tail] at hge
    obtain ⟨hk, hstop⟩ := List.getElem?_eq_some_iff.mp h
    rw [List.length_append, List.length_tail, List.length_singleton] at hk
    refine .inr ⟨by omega, ?_⟩
    rw [List.getElem_append_right (by rw [List.length_tail]; omega), List.getElem_singleton] at hstop
    exact hstop.symm

section Block

variable {code : List Instr} {k : Nat} {b : Block}

theorem start_mem_starts (hb : (blocksOf code)[k]? = some b) : b.start ∈ starts code :=
  List.mem_of_getElem? (getElem?_blocksOf_iff.mp hb).1

theorem stop_cases (hb : (blocksOf code)[k]? = some b) :
    (starts code)[k + 1]? = some b.stop ∨
      (starts code).length ≤ k + 1 ∧ b.stop = code.length :=
  getElem?_stops_cases (getElem?_blocksOf_iff.mp hb).2.1

/-- The starts of later blocks are further on. -/
theorem lt_of_starts {j k p q : Nat} (hj : (starts code)[j]? = some p)
    (hk : (starts code)[k]? = some q) (h : j < k) : p < q := by
  obtain ⟨hjlt, rfl⟩ := List.getElem?_eq_some_iff.mp hj
  obtain ⟨hklt, rfl⟩ := List.getElem?_eq_some_iff.mp hk
  exact List.pairwise_iff_getElem.mp (pairwise_starts code) j k hjlt hklt h

theorem start_lt_stop (hb : (blocksOf code)[k]? = some b) : b.start < b.stop := by
  rcases stop_cases hb with hnext | ⟨-, hlast⟩
  · exact lt_of_starts (getElem?_blocksOf_iff.mp hb).1 hnext (Nat.lt_succ_self k)
  · rw [hlast]
    exact lt_length_of_mem_starts (start_mem_starts hb)

theorem stop_le_length (hb : (blocksOf code)[k]? = some b) : b.stop ≤ code.length := by
  rcases stop_cases hb with hnext | ⟨-, hlast⟩
  · exact (lt_length_of_mem_starts (List.mem_of_getElem? hnext)).le
  · exact hlast.le

/-- A block that does not stop at the end stops where a block starts. -/
theorem stop_mem_starts (hb : (blocksOf code)[k]? = some b) (h : b.stop < code.length) :
    b.stop ∈ starts code := by
  rcases stop_cases hb with hnext | ⟨-, hlast⟩
  · exact List.mem_of_getElem? hnext
  · omega

/-- No block starts inside another. -/
theorem not_mem_starts_of_inside (hb : (blocksOf code)[k]? = some b) {q : Nat}
    (hstart : b.start < q) (hstop : q < b.stop) : q ∉ starts code := by
  intro hmem
  obtain ⟨j, hj⟩ := List.mem_iff_getElem?.mp hmem
  obtain ⟨hk, -, -⟩ := getElem?_blocksOf_iff.mp hb
  have hkj : k < j := by
    by_contra hle
    rcases (Nat.le_of_not_lt hle).lt_or_eq with hlt | rfl
    · exact absurd (lt_of_starts hj hk hlt) (by omega)
    · rw [hj, Option.some.injEq] at hk
      omega
  rcases stop_cases hb with hnext | ⟨hlast, -⟩
  · rcases Nat.lt_or_ge (k + 1) j with hlt | hge
    · exact absurd (lt_of_starts hnext hj hlt) (by omega)
    · obtain rfl : j = k + 1 := by omega
      rw [hj, Option.some.injEq] at hnext
      omega
  · have := (List.getElem?_eq_some_iff.mp hj).1
    omega

/-- A position is in one block only. -/
theorem block_unique {j : Nat} {b' : Block} (hb : (blocksOf code)[k]? = some b)
    (hb' : (blocksOf code)[j]? = some b') {p : Nat} (hp : b.start ≤ p ∧ p < b.stop)
    (hp' : b'.start ≤ p ∧ p < b'.stop) : k = j := by
  obtain ⟨hk, -, -⟩ := getElem?_blocksOf_iff.mp hb
  obtain ⟨hj, -, -⟩ := getElem?_blocksOf_iff.mp hb'
  rcases Nat.lt_trichotomy k j with hlt | heq | hgt
  · have hstarts := lt_of_starts hk hj hlt
    exact absurd (start_mem_starts hb') (not_mem_starts_of_inside hb hstarts (by omega))
  · exact heq
  · have hstarts := lt_of_starts hj hk hgt
    exact absurd (start_mem_starts hb) (not_mem_starts_of_inside hb' hstarts (by omega))

end Block

/-! ## Blocks in a row -/

/-- Blocks lead from one position to another: each starts where the one before it
stops, and none is empty. -/
def Tiles : Nat → List Block → Nat → Prop
  | start, [], stop => start = stop
  | start, b :: rest, stop => b.start = start ∧ b.start < b.stop ∧ Tiles b.stop rest stop

section Tiles

variable {start stop p : Nat} {blocks : List Block}

theorem Tiles.le_start (h : Tiles start blocks stop) {b : Block} (hb : b ∈ blocks) :
    start ≤ b.start := by
  induction blocks generalizing start with
  | nil => cases hb
  | cons first rest ih =>
      obtain ⟨hstart, hlt, hrest⟩ := h
      rcases List.mem_cons.mp hb with rfl | hmem
      · exact hstart.ge
      · have := ih hrest hmem
        omega

theorem Tiles.exists_first (h : Tiles start blocks stop) (hlt : start < stop) :
    ∃ b, blocks[0]? = some b ∧ b.start = start := by
  cases blocks with
  | nil => exact absurd h hlt.ne
  | cons b rest => exact ⟨b, rfl, h.1⟩

theorem Tiles.exists_of_lt (h : Tiles start blocks stop) (hstart : start ≤ p) (hstop : p < stop) :
    ∃ (k : Nat) (b : Block), blocks[k]? = some b ∧ b.start ≤ p ∧ p < b.stop := by
  induction blocks generalizing start with
  | nil =>
      obtain rfl : start = stop := h
      omega
  | cons b rest ih =>
      obtain ⟨rfl, -, hrest⟩ := h
      rcases Nat.lt_or_ge p b.stop with hlt | hge
      · exact ⟨0, b, rfl, hstart, hlt⟩
      · obtain ⟨k, b', hb', hin⟩ := ih hrest hge
        exact ⟨k + 1, b', hb', hin⟩

end Tiles

/-- Increasing numbers and an end beyond them cut out cells in a row. -/
theorem tiles_cells (successorsOf : Nat → List Nat) {first stop : Nat} {rest : List Nat}
    (hincreasing : (first :: rest).Pairwise (· < ·)) (hstop : ∀ p ∈ first :: rest, p < stop) :
    Tiles first
      (((first :: rest).zip (rest ++ [stop])).map fun (p, q) => ⟨p, q, successorsOf q⟩) stop := by
  induction rest generalizing first with
  | nil => exact ⟨rfl, hstop first List.mem_cons_self, rfl⟩
  | cons next rest ih =>
      obtain ⟨hfirst, hrest⟩ := List.pairwise_cons.mp hincreasing
      exact ⟨rfl, hfirst next List.mem_cons_self,
        ih hrest fun p hp => hstop p (List.mem_cons_of_mem _ hp)⟩

/-- The blocks follow one another through the whole code. -/
theorem tiles_blocksOf {code : List Instr} (h : code ≠ []) :
    Tiles 0 (blocksOf code) code.length := by
  have hzero := starts_getElem?_zero h
  have hincreasing := pairwise_starts code
  have hstop : ∀ p ∈ starts code, p < code.length := fun p => lt_length_of_mem_starts
  unfold blocksOf spans
  cases hstarts : starts code with
  | nil => simp [hstarts] at hzero
  | cons first rest =>
      obtain rfl : first = 0 := by simpa [hstarts] using hzero
      rw [hstarts] at hincreasing hstop
      exact tiles_cells (successors code) hincreasing hstop

theorem exists_first_block {code : List Instr} (h : code ≠ []) :
    ∃ b, (blocksOf code)[0]? = some b ∧ b.start = 0 :=
  (tiles_blocksOf h).exists_first (List.length_pos_iff.mpr h)

/-- Every position is in some block. -/
theorem exists_block_of_lt {code : List Instr} {p : Nat} (hp : p < code.length) :
    ∃ (k : Nat) (b : Block), (blocksOf code)[k]? = some b ∧ b.start ≤ p ∧ p < b.stop := by
  have hne : code ≠ [] := by
    rintro rfl
    exact absurd hp (Nat.not_lt_zero p)
  exact (tiles_blocksOf hne).exists_of_lt (Nat.zero_le p) hp

/-! ## Which block a position is in -/

/-- The block with an index starts at a position. -/
def Begins (code : List Instr) (k q : Nat) : Prop :=
  ∃ b, (blocksOf code)[k]? = some b ∧ b.start = q

theorem spanAt?_eq_some_iff {code : List Instr} {p k : Nat} :
    spanAt? code p = some k ↔
      ∃ b : Block, (blocksOf code)[k]? = some b ∧ b.start ≤ p ∧ p < b.stop := by
  have hblock : ∀ {j start stop : Nat}, (spans code)[j]? = some (start, stop) →
      (blocksOf code)[j]? = some ⟨start, stop, successors code stop⟩ := by
    intro j start stop hspan
    rw [blocksOf, List.getElem?_map, hspan, Option.map_some]
  have hfound : ∀ {j : Nat}, spanAt? code p = some j →
      ∃ b : Block, (blocksOf code)[j]? = some b ∧ b.start ≤ p ∧ p < b.stop := by
    intro j hj
    obtain ⟨hlt, hin, -⟩ := List.findIdx?_eq_some_iff_getElem.mp hj
    refine ⟨_, hblock (List.getElem?_eq_getElem hlt), ?_⟩
    simpa using hin
  refine ⟨hfound, fun ⟨b, hb, hp⟩ => ?_⟩
  cases hj : spanAt? code p with
  | some j =>
      obtain ⟨b', hb', hp'⟩ := hfound hj
      rw [block_unique hb hb' hp hp']
  | none =>
      exfalso
      unfold spanAt? at hj
      rw [List.findIdx?_eq_none_iff] at hj
      obtain ⟨hstart, hstop, -⟩ := getElem?_blocksOf_iff.mp hb
      have hspan : (spans code)[k]? = some (b.start, b.stop) :=
        List.getElem?_zip_eq_some.mpr ⟨hstart, hstop⟩
      have := hj _ (List.mem_of_getElem? hspan)
      simp [hp] at this

/-- The block that contains a start starts there. -/
theorem spanAt?_eq_some_iff_begins {code : List Instr} {q k : Nat} (hq : q ∈ starts code) :
    spanAt? code q = some k ↔ Begins code k q := by
  rw [spanAt?_eq_some_iff]
  constructor
  · rintro ⟨b, hb, hle, hlt⟩
    refine ⟨b, hb, ?_⟩
    rcases hle.lt_or_eq with hinside | heq
    · exact absurd hq (not_mem_starts_of_inside hb hinside hlt)
    · exact heq
  · rintro ⟨b, hb, rfl⟩
    exact ⟨b, hb, le_rfl, start_lt_stop hb⟩

/-- Where a block has to start one does. -/
theorem exists_begins_of_mem_starts {code : List Instr} {q : Nat} (hq : q ∈ starts code) :
    ∃ k, Begins code k q := by
  obtain ⟨k, b, hb, hin⟩ := exists_block_of_lt (lt_length_of_mem_starts hq)
  exact ⟨k, (spanAt?_eq_some_iff_begins hq).mp (spanAt?_eq_some_iff.mpr ⟨b, hb, hin⟩)⟩

theorem spanAt?_length (code : List Instr) : spanAt? code code.length = none := by
  rw [Option.eq_none_iff_forall_ne_some]
  intro k hk
  obtain ⟨b, hb, -, hlt⟩ := spanAt?_eq_some_iff.mp hk
  exact absurd hlt (Nat.not_lt_of_le (stop_le_length hb))

theorem blockOf?_eq_some_iff {code : List Instr} (h : WellLabelled code) {label : Label}
    {k : Nat} :
    blockOf? code label = some k ↔ ∃ q, code[q]? = some (.mark label) ∧ Begins code k q := by
  unfold blockOf?
  rw [Option.bind_eq_some_iff]
  refine exists_congr fun q => ?_
  rw [markOf?_eq_some_iff h.distinct]
  exact and_congr_right fun hq => spanAt?_eq_some_iff_begins (mark_mem_starts hq)

/-! ## How control moves through blocks -/

/-- Inside a block control goes on to the next position. -/
theorem goes_iff_of_inside {code : List Instr} {k : Nat} {b : Block}
    (hb : (blocksOf code)[k]? = some b) {p q : Nat} (hstart : b.start ≤ p)
    (hstop : p + 1 < b.stop) : Goes code p q ↔ q = p + 1 := by
  have hlt : p + 1 < code.length := hstop.trans_le (stop_le_length hb)
  have hp : p < code.length := Nat.lt_of_succ_lt hlt
  have hi := List.getElem?_eq_getElem hp
  refine goes_iff_of_target?_eq_none hi ?_
  cases htarget : code[p].target? with
  | none => rfl
  | some label =>
      exact absurd (succ_mem_starts hi htarget hlt) (not_mem_starts_of_inside hb (Nat.lt_succ_of_le hstart) hstop)

/-- The block after another one, if there is one, starts where that one stops. -/
theorem mem_next_iff {code : List Instr} {k : Nat} {b : Block}
    (hb : (blocksOf code)[k]? = some b) {j : Nat} :
    j ∈ (spanAt? code b.stop).toList ↔ b.stop < code.length ∧ Begins code j b.stop := by
  rw [Option.mem_toList]
  rcases (stop_le_length hb).lt_or_eq with hlt | heq
  · rw [spanAt?_eq_some_iff_begins (stop_mem_starts hb hlt)]
    exact ⟨fun h => ⟨hlt, h⟩, fun h => h.2⟩
  · rw [heq, spanAt?_length]
    simp

/-- The last position of a block, and that it is one. -/
theorem pred_stop {code : List Instr} {k : Nat} {b : Block}
    (hb : (blocksOf code)[k]? = some b) :
    b.start ≤ b.stop - 1 ∧ b.stop - 1 + 1 = b.stop ∧ b.stop - 1 < code.length := by
  have hlt := start_lt_stop hb
  have hle := stop_le_length hb
  omega

/-- The successors of a block are the blocks that start where control can go
from its last position. -/
theorem mem_successors_iff {code : List Instr} (h : WellLabelled code) {k : Nat} {b : Block}
    (hb : (blocksOf code)[k]? = some b) {j : Nat} :
    j ∈ b.successors ↔
      ∃ q < code.length, Goes code (b.stop - 1) q ∧ Begins code j q := by
  obtain ⟨-, hstop, hlast⟩ := pred_stop hb
  have hnext := mem_next_iff hb (j := j)
  -- the blocks that a label leads to
  have htaken : ∀ label, j ∈ (blockOf? code label).toList ↔
      ∃ q < code.length, code[q]? = some (.mark label) ∧ Begins code j q := by
    intro label
    rw [Option.mem_toList, blockOf?_eq_some_iff h]
    exact exists_congr fun q => ⟨fun hq => ⟨lt_length_of_getElem? hq.1, hq⟩, fun hq => hq.2⟩
  rw [(getElem?_blocksOf_iff.mp hb).2.2, successors]
  split
  · next label hgoto =>
    rw [htaken]
    simp only [goes_goto_iff hgoto]
  · next label hjump =>
    rw [List.mem_append, List.mem_filter, decide_eq_true_eq]
    -- a block that is both is listed once
    rw [show (j ∈ (blockOf? code label).toList ∨
          j ∈ (spanAt? code b.stop).toList ∧ j ∉ (blockOf? code label).toList) ↔
        (j ∈ (blockOf? code label).toList ∨ j ∈ (spanAt? code b.stop).toList) by tauto,
      htaken, hnext]
    simp only [goes_jump_iff hjump, hstop]
    constructor
    · rintro (⟨q, hq, hmark, hbegins⟩ | ⟨hlt, hbegins⟩)
      · exact ⟨q, hq, .inl hmark, hbegins⟩
      · exact ⟨b.stop, hlt, .inr rfl, hbegins⟩
    · rintro ⟨q, hq, hmark | rfl, hbegins⟩
      · exact .inl ⟨q, hq, hmark, hbegins⟩
      · exact .inr ⟨hq, hbegins⟩
  · next hgoto hjump =>
    have hi := List.getElem?_eq_getElem hlast
    have htarget : code[b.stop - 1].target? = none := by
      cases hinstr : code[b.stop - 1] <;>
        first
          | rfl
          | exact absurd (hi.trans (congrArg some hinstr)) (hgoto _)
          | exact absurd (hi.trans (congrArg some hinstr)) (hjump _ _)
    rw [hnext]
    simp only [goes_iff_of_target?_eq_none hi htarget, hstop]
    constructor
    · rintro ⟨hlt, hbegins⟩
      exact ⟨b.stop, hlt, rfl, hbegins⟩
    · rintro ⟨q, hq, rfl, hbegins⟩
      exact ⟨hq, hbegins⟩

/-- Where control goes from the last position of a block, a block starts. -/
theorem exists_begins_of_goes {code : List Instr} {k : Nat} {b : Block}
    (hb : (blocksOf code)[k]? = some b) {q : Nat} (hgoes : Goes code (b.stop - 1) q)
    (hq : q < code.length) : ∃ j, Begins code j q := by
  obtain ⟨-, hstop, -⟩ := pred_stop hb
  have hmem : q ∈ starts code := by
    cases hgoes with
    | falls _ _ =>
        rw [hstop] at hq ⊢
        exact stop_mem_starts hb hq
    | jumps _ _ hmark => exact mark_mem_starts hmark
  exact exists_begins_of_mem_starts hmem

theorem stop_eq_of_runsOff {code : List Instr} {b : Block} (h : b.runsOff code = true) :
    b.stop = code.length := by
  unfold Block.runsOff at h
  rw [Bool.and_eq_true, decide_eq_true_eq] at h
  exact h.1

/-- Control runs off the end from one block only. -/
theorem eq_of_runsOff {code : List Instr} {k j : Nat} {b b' : Block}
    (hb : (blocksOf code)[k]? = some b) (hb' : (blocksOf code)[j]? = some b')
    (h : b.runsOff code = true) (h' : b'.runsOff code = true) : k = j := by
  have hstop := stop_eq_of_runsOff h
  have hstop' := stop_eq_of_runsOff h'
  obtain ⟨hle, -, hlt⟩ := pred_stop hb
  obtain ⟨hle', -, hlt'⟩ := pred_stop hb'
  exact block_unique hb hb' (p := code.length - 1) (by omega) (by omega)

/-- Control runs off the end of the code from the last position of a block
exactly if the block says so. -/
theorem runsOff_iff {code : List Instr} {k : Nat} {b : Block}
    (hb : (blocksOf code)[k]? = some b) :
    b.runsOff code = true ↔ Goes code (b.stop - 1) code.length := by
  obtain ⟨-, hstop, hlast⟩ := pred_stop hb
  have hi := List.getElem?_eq_getElem hlast
  have hnomark : ∀ label, code[code.length]? ≠ some (.mark label) := by
    intro label
    rw [List.getElem?_eq_none le_rfl]
    exact Option.some_ne_none _ |>.symm
  unfold Block.runsOff
  rw [Bool.and_eq_true, decide_eq_true_eq]
  constructor
  · rintro ⟨hend, hfalls⟩
    rw [← hend, ← hstop]
    refine .falls hi ?_
    rw [hi] at hfalls
    cases hinstr : code[b.stop - 1] <;> simp_all [Instr.fallsThrough]
  · intro hgoes
    generalize hlength : code.length = n at hgoes
    cases hgoes with
    | falls hj hfalls =>
        refine ⟨hstop.symm, ?_⟩
        rw [hj]
        split
        · next label hgoto =>
          rw [Option.some.injEq] at hgoto
          rw [hgoto] at hfalls
          cases hfalls
        · rfl
    | jumps _ _ hq => exact absurd (hlength ▸ hq) (hnomark _)

end Lockstep.Flow
