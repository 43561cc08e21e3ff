import Lockstep.Proofs.Flow.Blocks

/-!
# The graph of a piece of code is exact

What a graph has to be is said here without its construction (`Graph.Exact`).  The
blocks follow one another through the whole code.  They start at the beginning, at
marks and after jumps, and nowhere else, so a mark is the first instruction of its
block and a jump the last.  A table has every position with the block that it is in.
And the successors of a block are the blocks that start where control can go from its
last instruction, each of them once.

## Strategy

That the blocks follow one another (`tiles_blocksOf`) is all that the table needs: a
block enters its own positions (`getElem?_enter`), and those of the blocks after it are
further on, so no entry is ever replaced, and looking a position up in the table finds
what searching through the blocks finds (`getElem?_enterFrom`, `getElem?_table`).

Marks and jumps are told by the starts (`mem_starts_iff_opens`), because no block starts
inside another.  The successors are told by how control moves (`mem_successors_iff`);
the one case with two of them is the conditional jump, and there the next block is
listed only if it is not the target (`nodup_successors`).
-/

namespace Lockstep.Flow

/-! ## The table of positions -/

/-- A block enters its positions in a table, each with the index of the block; an entry
that is there already is replaced. -/
def Block.enter (b : Block) (index : Nat) (table : Std.HashMap Nat Nat) : Std.HashMap Nat Nat :=
  (List.range' b.start (b.stop - b.start)).foldl (fun entered p => entered.insert p index) table

/-- Blocks enter their positions in order, the first of them with a given index. -/
def enterFrom (index : Nat) : List Block → Std.HashMap Nat Nat → Std.HashMap Nat Nat
  | [], table => table
  | b :: rest, table => enterFrom (index + 1) rest (b.enter index table)

/-- The positions of a graph, each with the index of its block. -/
def Graph.table (g : Graph) : Std.HashMap Nat Nat := enterFrom 0 g.blocks ∅

private theorem getElem?_foldl_insert (positions : List Nat) (index : Nat)
    (table : Std.HashMap Nat Nat) (p : Nat) :
    (positions.foldl (fun entered q => entered.insert q index) table)[p]? =
      if p ∈ positions then some index else table[p]? := by
  induction positions generalizing table with
  | nil => simp
  | cons q rest ih =>
      rw [List.foldl_cons, ih, Std.HashMap.getElem?_insert]
      by_cases hrest : p ∈ rest
      · simp [hrest]
      · by_cases hq : q = p
        · simp [hq]
        · simp [hrest, hq, Ne.symm hq]

theorem getElem?_enter (b : Block) (index : Nat) (table : Std.HashMap Nat Nat) (p : Nat) :
    (b.enter index table)[p]? =
      if b.start ≤ p ∧ p < b.stop then some index else table[p]? := by
  have hmem : p ∈ List.range' b.start (b.stop - b.start) ↔ b.start ≤ p ∧ p < b.stop := by
    rw [List.mem_range'_1]
    omega
  rw [Block.enter, getElem?_foldl_insert]
  simp only [hmem]

/-- Blocks that follow one another replace no entry: a position that one of them has is
entered with its index, and the others keep the entry that they had. -/
theorem getElem?_enterFrom {start stop : Nat} {blocks : List Block}
    (h : Tiles start blocks stop) (index : Nat) (table : Std.HashMap Nat Nat) (p : Nat) :
    (enterFrom index blocks table)[p]? =
      ((blocks.findIdx? fun b => b.start ≤ p && p < b.stop).map (index + ·)).or table[p]? := by
  induction blocks generalizing start index table with
  | nil => rfl
  | cons b rest ih =>
      obtain ⟨-, -, hrest⟩ := h
      rw [enterFrom, ih hrest, getElem?_enter, List.findIdx?_cons]
      by_cases hin : b.start ≤ p ∧ p < b.stop
      · -- the blocks after this one start beyond the position
        have hnone : (rest.findIdx? fun b' => b'.start ≤ p && p < b'.stop) = none := by
          rw [List.findIdx?_eq_none_iff]
          intro b' hb'
          have := hrest.le_start hb'
          rw [Bool.and_eq_false_iff, decide_eq_false_iff_not]
          exact .inl (by omega)
        simp [hin, hnone]
      · have hout : (decide (b.start ≤ p) && decide (p < b.stop)) = false := by
          simpa using hin
        simp only [hin, hout, if_false, Bool.false_eq_true, Option.map_map]
        congr 2
        funext k
        simp only [Function.comp_apply]
        omega

/-- Looking a position up in the table is searching for its block. -/
theorem getElem?_table {g : Graph} {stop : Nat} (h : Tiles 0 g.blocks stop) (p : Nat) :
    g.table[p]? = g.blockAt? p := by
  rw [Graph.table, getElem?_enterFrom h, Std.HashMap.getElem?_empty, Option.or_none]
  simp [Graph.blockAt?]

/-- Searching through the blocks is what the construction does when it looks for a
successor. -/
theorem blockAt?_blocksOf (code : List Instr) (p : Nat) :
    Graph.blockAt? ⟨blocksOf code⟩ p = spanAt? code p := by
  rw [Graph.blockAt?, blocksOf, List.findIdx?_map]
  rfl

section Table

variable {code : List Instr} (hne : code ≠ [])
include hne

theorem getElem?_table_eq_some_iff {p k : Nat} :
    (Graph.table ⟨blocksOf code⟩)[p]? = some k ↔
      ∃ b, (blocksOf code)[k]? = some b ∧ b.start ≤ p ∧ p < b.stop := by
  rw [getElem?_table (g := ⟨blocksOf code⟩) (tiles_blocksOf hne), blockAt?_blocksOf,
    spanAt?_eq_some_iff]

theorem mem_table_iff {p : Nat} : p ∈ Graph.table ⟨blocksOf code⟩ ↔ p < code.length := by
  rw [Std.HashMap.mem_iff_isSome_getElem?, Option.isSome_iff_exists]
  constructor
  · rintro ⟨k, hk⟩
    obtain ⟨b, hb, -, hlt⟩ := (getElem?_table_eq_some_iff hne).mp hk
    exact hlt.trans_le (stop_le_length hb)
  · intro hp
    obtain ⟨k, b, hb, hin⟩ := exists_block_of_lt hp
    exact ⟨k, (getElem?_table_eq_some_iff hne).mpr ⟨b, hb, hin⟩⟩

end Table

/-! ## Marks and jumps -/

/-- A block has to start at a position: it is the beginning, or a mark, or it comes right
after a jump. -/
def Opens (code : List Instr) (p : Nat) : Prop :=
  p = 0 ∨ (∃ label, code[p]? = some (.mark label)) ∨
    ∃ q i label, q + 1 = p ∧ code[q]? = some i ∧ i.target? = some label

section Opens

variable {code : List Instr} {p : Nat}

theorem mem_starts_iff_opens (hp : p < code.length) : p ∈ starts code ↔ Opens code p := by
  constructor
  · intro h
    obtain ⟨i, hi, hfollows | hmarked⟩ := mem_starts_iff.mp h
    · cases p with
      | zero => exact .inl rfl
      | succ q =>
          obtain ⟨label, hlabel⟩ := Option.isSome_iff_exists.mp hfollows
          obtain ⟨j, hj, htarget⟩ := Option.bind_eq_some_iff.mp hlabel
          exact .inr (.inr ⟨q, j, label, rfl, hj, htarget⟩)
    · obtain ⟨label, hlabel⟩ := Option.isSome_iff_exists.mp hmarked
      exact .inr (.inl ⟨label, marked?_eq_some_iff.mp hlabel ▸ hi⟩)
  · rintro (rfl | ⟨label, hmark⟩ | ⟨q, i, label, rfl, hi, htarget⟩)
    · exact mem_starts_iff.mpr ⟨_, List.getElem?_eq_getElem hp, .inl rfl⟩
    · exact mark_mem_starts hmark
    · exact succ_mem_starts hi htarget hp

theorem exists_block_iff_opens (hp : p < code.length) :
    (∃ b ∈ blocksOf code, b.start = p) ↔ Opens code p := by
  rw [← mem_starts_iff_opens hp]
  constructor
  · rintro ⟨b, hb, rfl⟩
    obtain ⟨k, hk⟩ := List.mem_iff_getElem?.mp hb
    exact start_mem_starts hk
  · intro h
    obtain ⟨k, b, hb, hstart⟩ := exists_begins_of_mem_starts h
    exact ⟨b, List.mem_of_getElem? hb, hstart⟩

variable {b : Block}

/-- A mark is the first instruction of its block. -/
theorem eq_start_of_mark (hb : b ∈ blocksOf code) (hstart : b.start ≤ p) (hstop : p < b.stop)
    {label : Label} (hmark : code[p]? = some (.mark label)) : p = b.start := by
  obtain ⟨k, hk⟩ := List.mem_iff_getElem?.mp hb
  by_contra hne
  exact not_mem_starts_of_inside hk (by omega) hstop (mark_mem_starts hmark)

/-- A jump is the last instruction of its block. -/
theorem succ_eq_stop_of_jump (hb : b ∈ blocksOf code) (hstart : b.start ≤ p) (hstop : p < b.stop)
    {i : Instr} {label : Label} (hi : code[p]? = some i) (htarget : i.target? = some label) :
    p + 1 = b.stop := by
  obtain ⟨k, hk⟩ := List.mem_iff_getElem?.mp hb
  have hle := stop_le_length hk
  by_contra hne
  have hnext : p + 1 ∈ starts code := succ_mem_starts hi htarget (by omega)
  exact not_mem_starts_of_inside hk (by omega) (by omega) hnext

end Opens

/-! ## Successors -/

section Successors

variable {code : List Instr} {b : Block}

/-- No successor is listed twice, also where the target of a jump is what comes next. -/
theorem nodup_successors (hb : b ∈ blocksOf code) : b.successors.Nodup := by
  have hoption : ∀ k : Option Nat, k.toList.Nodup := by
    intro k
    cases k <;> simp
  obtain ⟨k, hk⟩ := List.mem_iff_getElem?.mp hb
  rw [(getElem?_blocksOf_iff.mp hk).2.2, successors]
  split
  · exact hoption _
  · refine List.nodup_append.mpr ⟨hoption _, (hoption _).filter _, ?_⟩
    rintro j htaken j' hnext rfl
    have hnew := (List.mem_filter.mp hnext).2
    exact of_decide_eq_true hnew htaken
  · exact hoption _

theorem mem_successors_iff_exists_block (h : WellLabelled code) (hb : b ∈ blocksOf code)
    {k : Nat} :
    k ∈ b.successors ↔
      ∃ b', (blocksOf code)[k]? = some b' ∧ Goes code (b.stop - 1) b'.start := by
  obtain ⟨j, hj⟩ := List.mem_iff_getElem?.mp hb
  rw [mem_successors_iff h hj]
  constructor
  · rintro ⟨q, -, hgoes, b', hb', rfl⟩
    exact ⟨b', hb', hgoes⟩
  · rintro ⟨b', hb', hgoes⟩
    exact ⟨b'.start, lt_length_of_mem_starts (start_mem_starts hb'), hgoes, b', hb', rfl⟩

/-- Control does not leave a block for the inside of another. -/
theorem exists_successor_of_goes (h : WellLabelled code) (hb : b ∈ blocksOf code) {q : Nat}
    (hq : q < code.length) (hgoes : Goes code (b.stop - 1) q) :
    ∃ k ∈ b.successors, ∃ b', (blocksOf code)[k]? = some b' ∧ b'.start = q := by
  obtain ⟨j, hj⟩ := List.mem_iff_getElem?.mp hb
  obtain ⟨k, b', hb', rfl⟩ := exists_begins_of_goes hj hgoes hq
  exact ⟨k, (mem_successors_iff_exists_block h hb).mpr ⟨b', hb', hgoes⟩, b', hb', rfl⟩

end Successors

/-! ## Exactness -/

/-- A graph tells exactly how control moves through a piece of code. -/
structure Graph.Exact (g : Graph) (code : List Instr) : Prop where
  /-- Control enters at the first block. -/
  entry : ∃ b, g.blocks[0]? = some b ∧ b.start = 0
  /-- The blocks follow one another through the whole code, and none is empty. -/
  tiles : Tiles 0 g.blocks code.length
  /-- Blocks start where they have to, and nowhere else. -/
  opens : ∀ p < code.length, (∃ b ∈ g.blocks, b.start = p) ↔ Opens code p
  /-- The table has the positions of the code, and no others. -/
  entered : ∀ p : Nat, p ∈ g.table ↔ p < code.length
  /-- It has each with the index of the block that the position is in. -/
  located : ∀ p k : Nat, g.table[p]? = some k ↔
    ∃ b, g.blocks[k]? = some b ∧ b.start ≤ p ∧ p < b.stop
  /-- Searching through the blocks finds the same. -/
  searched : ∀ p : Nat, g.blockAt? p = g.table[p]?
  marks : ∀ b ∈ g.blocks, ∀ p label, b.start ≤ p → p < b.stop →
    code[p]? = some (.mark label) → p = b.start
  jumps : ∀ b ∈ g.blocks, ∀ p i label, b.start ≤ p → p < b.stop →
    code[p]? = some i → i.target? = some label → p + 1 = b.stop
  distinct : ∀ b ∈ g.blocks, b.successors.Nodup
  /-- The successors of a block are the blocks that start where control can go from its
  last instruction. -/
  successors : ∀ b ∈ g.blocks, ∀ k : Nat, k ∈ b.successors ↔
    ∃ b', g.blocks[k]? = some b' ∧ Goes code (b.stop - 1) b'.start
  /-- Wherever control can go from there, short of the end of the code, one of them
  starts. -/
  leads : ∀ b ∈ g.blocks, ∀ q < code.length, Goes code (b.stop - 1) q →
    ∃ k ∈ b.successors, ∃ b', g.blocks[k]? = some b' ∧ b'.start = q

theorem exact_blocksOf {code : List Instr} (hne : code ≠ []) (hlabels : WellLabelled code) :
    Graph.Exact ⟨blocksOf code⟩ code where
  entry := exists_first_block hne
  tiles := tiles_blocksOf hne
  opens := fun _ => exists_block_iff_opens
  entered := fun _ => mem_table_iff hne
  located := fun _ _ => getElem?_table_eq_some_iff hne
  searched := fun p => (getElem?_table (g := ⟨blocksOf code⟩) (tiles_blocksOf hne) p).symm
  marks := fun _ hb _ _ hstart hstop => eq_start_of_mark hb hstart hstop
  jumps := fun _ hb _ _ _ hstart hstop => succ_eq_stop_of_jump hb hstart hstop
  distinct := fun _ => nodup_successors
  successors := fun _ hb _ => mem_successors_iff_exists_block hlabels hb
  leads := fun _ hb _ => exists_successor_of_goes hlabels hb

/-- Code that is not empty, marks no label twice and names no label that it does not mark
has a graph, and the graph is exact. -/
theorem ofCode_exact {code : List Instr} (hne : code ≠ []) (hlabels : WellLabelled code) :
    ∃ g, Graph.ofCode code = .ok g ∧ g.Exact code := by
  obtain ⟨g, hg⟩ := exists_graph_of_wellLabelled hlabels
  obtain ⟨-, rfl⟩ := ofCode_eq_ok hg
  exact ⟨_, hg, exact_blocksOf hne hlabels⟩

/-- A jump to what comes next, two marks in a row, and a jump at the end of the code that
goes back to its own block. -/
theorem ofCode_exact_adjacent_marks :
    WellLabelled [.jump .isZero ⟨0⟩, .mark ⟨0⟩, .mark ⟨1⟩, .longZero, .goto ⟨1⟩] ∧
      Graph.ofCode [.jump .isZero ⟨0⟩, .mark ⟨0⟩, .mark ⟨1⟩, .longZero, .goto ⟨1⟩] =
        .ok ⟨[⟨0, 1, [1]⟩, ⟨1, 2, [2]⟩, ⟨2, 5, [2]⟩]⟩ ∧
      Graph.Exact ⟨[⟨0, 1, [1]⟩, ⟨1, 2, [2]⟩, ⟨2, 5, [2]⟩]⟩
        [.jump .isZero ⟨0⟩, .mark ⟨0⟩, .mark ⟨1⟩, .longZero, .goto ⟨1⟩] := by
  have hlabels : WellLabelled
      [.jump .isZero ⟨0⟩, .mark ⟨0⟩, .mark ⟨1⟩, .longZero, .goto ⟨1⟩] := by
    constructor
    · decide
    · simp [Instr.target?]
  obtain ⟨g, hg, hexact⟩ := ofCode_exact (List.cons_ne_nil _ _) hlabels
  have hgraph : Graph.ofCode [.jump .isZero ⟨0⟩, .mark ⟨0⟩, .mark ⟨1⟩, .longZero, .goto ⟨1⟩] =
      .ok ⟨[⟨0, 1, [1]⟩, ⟨1, 2, [2]⟩, ⟨2, 5, [2]⟩]⟩ := by rfl
  rw [hgraph, Except.ok.injEq] at hg
  exact ⟨hlabels, hgraph, hg ▸ hexact⟩

end Lockstep.Flow
