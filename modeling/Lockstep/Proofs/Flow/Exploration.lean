import Lockstep.Proofs.Flow.Blocks
import Lockstep.Proofs.Flow.Fragments

/-!
# What the exploration of a graph establishes

The check settles one height for each block that a path gets to, and walks through
every block that is settled once.  Two things hold all the way:

* every settled height is that of a path on which no instruction underflows or
  overflows (`Invariant.grounded`), so whatever defect is reported has such a path
  as its witness (`genuine_of_explore_error`);
* a settled block is queued, or it has been walked through without a defect, its
  successors are settled with the height at its end, and so is the height at the
  end of the code if control runs off there (`Invariant.walked`).

When the queue is empty, the second says that the settled blocks are closed under
going on.  So all paths stay in them, at the heights that walking through gives
(`covered_of_reaches`).
-/

namespace Lockstep

namespace Instr

/-- The height after an instruction; an instruction that pops more than there is
leaves what it pushes. -/
def heightAfter (i : Instr) (height : Nat) : Nat :=
  height - i.effect.pops + i.effect.pushes

/-- The machine that only counts slots, and never stops. -/
def unchecked (i : Instr) (height : Nat) : Option Nat := some (i.heightAfter height)

/-- The machine that counts slots and stops at an underflow, or when the height
after an instruction is beyond a limit. -/
def within (limit : Nat) (i : Instr) (height : Nat) : Option Nat :=
  if i.effect.pops ≤ height ∧ i.heightAfter height ≤ limit then some (i.heightAfter height)
  else none

theorem within_eq_some_iff {limit height after : Nat} {i : Instr} :
    i.within limit height = some after ↔
      i.effect.pops ≤ height ∧ i.heightAfter height ≤ limit ∧ i.heightAfter height = after := by
  unfold within
  split
  · next hfits => simp [hfits]
  · next hmisfits =>
    simp only [reduceCtorEq, false_iff]
    rintro ⟨hpops, hlimit, -⟩
    exact hmisfits ⟨hpops, hlimit⟩

end Instr

namespace Flow

/-! ## Walking through a block -/

theorem walk_eq_ok_iff {limit position height after : Nat} {is : List Instr} :
    walk limit position height is = .ok after ↔
      runs (Instr.within limit) is height = some after := by
  induction is generalizing position height with
  | nil => simp [walk, runs]
  | cons i rest ih =>
      unfold walk runs
      by_cases hpops : height < i.effect.pops
      · have hstuck : i.within limit height = none := by
          rw [Instr.within, if_neg (by omega)]
        simp [hpops, hstuck]
      · by_cases hover : limit < i.heightAfter height
        · have hstuck : i.within limit height = none := by
            rw [Instr.within, if_neg (by omega)]
          simp only [Instr.heightAfter] at hover
          simp [hpops, hover, hstuck]
        · have hgoes : i.within limit height = some (i.heightAfter height) :=
            Instr.within_eq_some_iff.mpr ⟨by omega, by omega, rfl⟩
          rw [hgoes, Option.bind_some, ← @ih (position + 1)]
          simp only [Instr.heightAfter] at hover ⊢
          simp [hpops, hover]

/-- An instruction does not fit a height: it pops too much, or leaves too much. -/
def Misfits (limit position height : Nat) (i : Instr) (d : Defect) : Prop :=
  (height < i.effect.pops ∧ d = .underflow position i.effect.pops height) ∨
    (i.effect.pops ≤ height ∧ limit < i.heightAfter height ∧
      d = .overflow position (i.heightAfter height) limit)

/-- A walk ends at the first instruction that does not fit. -/
theorem misfits_of_walk_error {limit position height : Nat} {is : List Instr} {d : Defect}
    (h : walk limit position height is = .error d) :
    ∃ k i x, is[k]? = some i ∧ runs (Instr.within limit) (is.take k) height = some x ∧
      Misfits limit (position + k) x i d := by
  induction is generalizing position height with
  | nil => cases h
  | cons i rest ih =>
      unfold walk at h
      by_cases hpops : height < i.effect.pops
      · simp only [hpops, if_true] at h
        cases h
        exact ⟨0, i, height, rfl, rfl, .inl ⟨hpops, rfl⟩⟩
      · by_cases hover : limit < i.heightAfter height
        · have hover' : limit < height - i.effect.pops + i.effect.pushes := hover
          simp only [hpops, if_false, hover', if_true] at h
          cases h
          exact ⟨0, i, height, rfl, rfl, .inr ⟨Nat.le_of_not_lt hpops, hover, rfl⟩⟩
        · have hover' : ¬ limit < height - i.effect.pops + i.effect.pushes := hover
          simp only [hpops, if_false, hover'] at h
          obtain ⟨k, j, x, hk, hruns, hmisfits⟩ := ih h
          refine ⟨k + 1, j, x, hk, ?_, ?_⟩
          · have hgoes : i.within limit height = some (i.heightAfter height) :=
              Instr.within_eq_some_iff.mpr ⟨by omega, by omega, rfl⟩
            rw [List.take_succ_cons, runs, hgoes, Option.bind_some]
            exact hruns
          · rwa [show position + (k + 1) = position + 1 + k by omega]

/-! ## Paths inside a block -/

/-- Some instructions from a position on. -/
def segment (code : List Instr) (start n : Nat) : List Instr := (code.drop start).take n

theorem segment_succ {code : List Instr} {start n : Nat} {i : Instr}
    (hi : code[start + n]? = some i) :
    segment code start (n + 1) = segment code start n ++ [i] := by
  rw [segment, List.take_add_one, List.getElem?_drop, hi, Option.toList_some, segment]

theorem runs_segment_succ {σ : Type} {act : Instr → σ → Option σ} {code : List Instr}
    {start n : Nat} {i : Instr} {s : σ} (hi : code[start + n]? = some i) :
    runs act (segment code start (n + 1)) s = (runs act (segment code start n) s).bind (act i) := by
  rw [segment_succ hi, runs_append]
  congr 1
  funext x
  rw [runs, show runs act [] = some from rfl, Option.bind_fun_some]

/-- Running through part of a straight run is running through its beginning. -/
theorem runs_segment_of_le {σ : Type} {act : Instr → σ → Option σ} {code : List Instr}
    {start n m : Nat} {s t : σ} (hruns : runs act (segment code start n) s = some t) (hm : m ≤ n) :
    ∃ x, runs act (segment code start m) s = some x := by
  have hsplit : segment code start n = segment code start m ++ (segment code start n).drop m := by
    rw [segment, segment, List.drop_take, ← List.take_add, Nat.add_sub_cancel' hm]
  rw [hsplit, runs_append] at hruns
  obtain ⟨x, hx, -⟩ := Option.bind_eq_some_iff.mp hruns
  exact ⟨x, hx⟩

theorem getElem?_body {code : List Instr} {b : Block} {n : Nat} {i : Instr}
    (h : (b.body code)[n]? = some i) : b.start + n < b.stop ∧ code[b.start + n]? = some i := by
  rw [Block.body, List.getElem?_take] at h
  split at h
  · rw [List.getElem?_drop] at h
    exact ⟨by omega, h⟩
  · cases h

theorem take_body {code : List Instr} {b : Block} {n : Nat} (h : b.start + n ≤ b.stop) :
    (b.body code).take n = segment code b.start n := by
  rw [Block.body, List.take_take, segment, Nat.min_eq_left (by omega)]

section Block

variable {σ : Type} {act : Instr → σ → Option σ} {code : List Instr} {k : Nat} {b : Block}
  {s h x : σ}

/-- A path to the start of a block goes on to every position of the block that
running through it gets to. -/
theorem reaches_inside (hb : (blocksOf code)[k]? = some b) (hstart : Reaches act code s b.start h)
    {n : Nat} (hn : b.start + n < b.stop)
    (hruns : runs act (segment code b.start n) h = some x) : Reaches act code s (b.start + n) x := by
  induction n generalizing x with
  | zero =>
      rw [segment, List.take_zero, runs, Option.some.injEq] at hruns
      exact hruns ▸ hstart
  | succ n ih =>
      have hlt : b.start + n < code.length := by
        have := stop_le_length hb
        omega
      have hi := List.getElem?_eq_getElem hlt
      rw [runs_segment_succ hi] at hruns
      obtain ⟨y, hy, hstep⟩ := Option.bind_eq_some_iff.mp hruns
      exact .step (ih (by omega) hy) hi hstep
        ((goes_iff_of_inside hb (Nat.le_add_right _ _) (by omega)).mpr rfl)

/-- A path to the start of a block goes on to wherever control goes from its last
position, if running through it succeeds. -/
theorem reaches_after (hb : (blocksOf code)[k]? = some b) (hstart : Reaches act code s b.start h)
    (hruns : runs act (b.body code) h = some x) {q : Nat} (hgoes : Goes code (b.stop - 1) q) :
    Reaches act code s q x := by
  obtain ⟨hle, hstop, hlt⟩ := pred_stop hb
  obtain ⟨i, hi⟩ : ∃ i, code[b.stop - 1]? = some i := ⟨_, List.getElem?_eq_getElem hlt⟩
  obtain ⟨n, hn⟩ := Nat.exists_eq_add_of_le hle
  have hbody : b.body code = segment code b.start (n + 1) := by
    rw [Block.body, segment, show b.stop - b.start = n + 1 by omega]
  rw [hn] at hi hgoes
  rw [hbody, runs_segment_succ hi] at hruns
  obtain ⟨y, hy, hstep⟩ := Option.bind_eq_some_iff.mp hruns
  have hlast : Reaches act code s (b.start + n) y := reaches_inside hb hstart (by omega) hy
  exact .step hlast hi hstep hgoes

end Block

/-! ## Carrying a height over to successors -/

/-- What a frontier becomes when a height is carried over to some blocks. -/
structure Spreads (height : Nat) (successors : List Nat) (f after : Frontier) : Prop where
  length : after.heights.length = f.heights.length
  /-- Settled heights stay. -/
  keeps : ∀ {k x : Nat}, f.heights[k]? = some (some x) → after.heights[k]? = some (some x)
  /-- A height that is new is the one carried over, and its block is queued. -/
  news : ∀ {k x : Nat}, after.heights[k]? = some (some x) →
    f.heights[k]? = some (some x) ∨ (x = height ∧ k ∈ successors ∧ k ∈ after.queue)
  queue : ∀ {k : Nat}, k ∈ f.queue → k ∈ after.queue
  /-- All successors are settled with it. -/
  settles : ∀ {k : Nat}, k ∈ successors → k < f.heights.length →
    after.heights[k]? = some (some height)

theorem Spreads.nil (height : Nat) (f : Frontier) : Spreads height [] f f :=
  ⟨rfl, fun h => h, .inl, fun h => h, fun h => by cases h⟩

theorem getElem?_settle_of_ne {f : Frontier} {index height k : Nat} (h : k ≠ index) :
    (f.settle index height).heights[k]? = f.heights[k]? :=
  List.getElem?_set_ne h.symm

theorem getElem?_settle_self {f : Frontier} {index height : Nat}
    (h : f.heights[index]? = some none) :
    (f.settle index height).heights[index]? = some (some height) :=
  List.getElem?_set_self (List.getElem?_eq_some_iff.mp h).1

/-- A successor that needs nothing done can be left out. -/
theorem Spreads.cons_of_settled {height index : Nat} {successors : List Nat} {f after : Frontier}
    (hrest : Spreads height successors f after)
    (hindex : index < f.heights.length → after.heights[index]? = some (some height)) :
    Spreads height (index :: successors) f after := by
  refine ⟨hrest.length, hrest.keeps, fun hk => ?_, hrest.queue, fun hk hlt => ?_⟩
  · exact (hrest.news hk).imp_right fun ⟨hx, hmem, hqueue⟩ =>
      ⟨hx, List.mem_cons_of_mem _ hmem, hqueue⟩
  · rcases List.mem_cons.mp hk with rfl | hmem
    · exact hindex hlt
    · exact hrest.settles hmem hlt

/-- A successor that is not settled yet is settled first. -/
theorem Spreads.cons_of_free {height index : Nat} {successors : List Nat} {f after : Frontier}
    (hfree : f.heights[index]? = some none)
    (hrest : Spreads height successors (f.settle index height) after) :
    Spreads height (index :: successors) f after := by
  have hlength : (f.settle index height).heights.length = f.heights.length := List.length_set
  have hsettled : after.heights[index]? = some (some height) :=
    hrest.keeps (getElem?_settle_self hfree)
  have hqueued : index ∈ after.queue :=
    hrest.queue (List.mem_append_right _ List.mem_cons_self)
  refine ⟨hrest.length.trans hlength, fun {k x} hk => ?_, fun {k x} hk => ?_,
    fun hk => hrest.queue (List.mem_append_left _ hk), fun {k} hk hlt => ?_⟩
  · have hne : k ≠ index := by
      rintro rfl
      rw [hfree] at hk
      cases hk
    exact hrest.keeps ((getElem?_settle_of_ne hne).trans hk)
  · rcases hrest.news hk with hold | ⟨hx, hmem, hqueue⟩
    · by_cases heq : k = index
      · subst heq
        rw [getElem?_settle_self hfree, Option.some.injEq, Option.some.injEq] at hold
        exact .inr ⟨hold.symm, List.mem_cons_self, hqueued⟩
      · rw [getElem?_settle_of_ne heq] at hold
        exact .inl hold
    · exact .inr ⟨hx, List.mem_cons_of_mem _ hmem, hqueue⟩
  · rcases List.mem_cons.mp hk with rfl | hmem
    · exact hsettled
    · exact hrest.settles hmem (hlength ▸ hlt)

theorem spreads_of_spread_ok {g : Graph} {height : Nat} {successors : List Nat}
    {f after : Frontier} (h : spread g height successors f = .ok after) :
    Spreads height successors f after := by
  induction successors generalizing f with
  | nil =>
      cases h
      exact .nil height _
  | cons index rest ih =>
      unfold spread at h
      split at h
      · -- no block has that index
        next hnone =>
        rw [List.getElem?_eq_none_iff] at hnone
        exact (ih h).cons_of_settled fun hlt => absurd hlt (Nat.not_lt_of_le hnone)
      · next hfree => exact .cons_of_free hfree (ih h)
      · next settled hsettled =>
        split at h
        · next heq => exact (ih h).cons_of_settled fun _ => (ih h).keeps (heq ▸ hsettled)
        · cases h

/-- A height is not carried over only if a successor is settled with another. -/
theorem exists_of_spread_error {g : Graph} {height : Nat} {successors : List Nat} {f : Frontier}
    {d : Defect} (h : spread g height successors f = .error d) :
    ∃ k ∈ successors, ∃ x, f.heights[k]? = some (some x) ∧ x ≠ height ∧
      d = .heightMismatch ((g.blocks[k]?.map Block.start).getD 0) x height := by
  induction successors generalizing f with
  | nil => cases h
  | cons index rest ih =>
      unfold spread at h
      split at h
      · obtain ⟨k, hk, hrest⟩ := ih h
        exact ⟨k, List.mem_cons_of_mem _ hk, hrest⟩
      · next hfree =>
        obtain ⟨k, hk, x, hx, hne, hd⟩ := ih h
        have hother : k ≠ index := by
          rintro rfl
          rw [getElem?_settle_self hfree, Option.some.injEq, Option.some.injEq] at hx
          exact hne hx.symm
        rw [getElem?_settle_of_ne hother] at hx
        exact ⟨k, List.mem_cons_of_mem _ hk, x, hx, hne, hd⟩
      · next settled hsettled =>
        split at h
        · obtain ⟨k, hk, hrest⟩ := ih h
          exact ⟨k, List.mem_cons_of_mem _ hk, hrest⟩
        · next hne =>
          cases h
          exact ⟨index, List.mem_cons_self, settled, hsettled, hne, rfl⟩

/-! ## Defects that are real -/

/-- What a defect says is so. -/
def Defect.Genuine (limit : Nat) (code : List Instr) (entry : Nat) : Defect → Prop
  | .duplicateLabel p label =>
      code[p]? = some (.mark label) ∧ ∃ q < p, code[q]? = some (.mark label)
  | .unknownLabel p label =>
      (∃ i, code[p]? = some i ∧ i.target? = some label) ∧ ∀ q : Nat, code[q]? ≠ some (.mark label)
  | .underflow p required actual =>
      Reaches (Instr.within limit) code entry p actual ∧
        ∃ i, code[p]? = some i ∧ i.effect.pops = required ∧ actual < required
  | .overflow p height most =>
      most = limit ∧ limit < height ∧
        ∃ i before, Reaches (Instr.within limit) code entry p before ∧ code[p]? = some i ∧
          i.effect.pops ≤ before ∧ i.heightAfter before = height
  | .heightMismatch p expected actual =>
      Reaches (Instr.within limit) code entry p expected ∧
        Reaches (Instr.within limit) code entry p actual ∧ expected ≠ actual
  | .noFallThrough => ∀ height, ¬ Reaches Instr.unchecked code entry code.length height

theorem Misfits.genuine {limit entry p height : Nat} {code : List Instr} {i : Instr} {d : Defect}
    (h : Misfits limit p height i d) (hreach : Reaches (Instr.within limit) code entry p height)
    (hi : code[p]? = some i) : d.Genuine limit code entry := by
  rcases h with ⟨hlt, rfl⟩ | ⟨hle, hover, rfl⟩
  · exact ⟨hreach, i, hi, rfl, hlt⟩
  · exact ⟨rfl, hover, i, height, hreach, hi, hle, rfl⟩

/-! ## The invariant of the exploration -/

/-- A settled block has been walked through, and what that showed is recorded. -/
def Walked (limit : Nat) (code : List Instr) (heights : List (Option Nat)) (off : Option Nat)
    (b : Block) (height : Nat) : Prop :=
  ∃ after, runs (Instr.within limit) (b.body code) height = some after ∧
    (∀ j ∈ b.successors, heights[j]? = some (some after)) ∧
    (b.runsOff code = true → off = some after)

/-- What holds whenever a block is taken off the queue. -/
structure Invariant (limit : Nat) (code : List Instr) (entry : Nat) (off : Option Nat)
    (heights : List (Option Nat)) (queue : List Nat) : Prop where
  length : heights.length = (blocksOf code).length
  /-- A settled height is that of a path. -/
  grounded : ∀ {k : Nat} {b : Block} {height : Nat}, (blocksOf code)[k]? = some b →
    heights[k]? = some (some height) → Reaches (Instr.within limit) code entry b.start height
  /-- So is the height at the end. -/
  exit : ∀ {height : Nat}, off = some height →
    Reaches (Instr.within limit) code entry code.length height
  /-- A settled block is queued or has been walked through. -/
  walked : ∀ {k : Nat} {b : Block} {height : Nat}, (blocksOf code)[k]? = some b →
    heights[k]? = some (some height) → k ∈ queue ∨ Walked limit code heights off b height

section Invariant

variable {limit entry : Nat} {code : List Instr} {off : Option Nat} {heights : List (Option Nat)}
  {queue : List Nat}

/-- An index on the queue of no settled block can be forgotten. -/
theorem Invariant.skip {index : Nat}
    (hinv : Invariant limit code entry off heights (index :: queue))
    (h : ∀ b height, (blocksOf code)[index]? = some b → heights[index]? = some (some height) → False) :
    Invariant limit code entry off heights queue where
  length := hinv.length
  grounded := hinv.grounded
  exit := hinv.exit
  walked := by
    intro k b height hb hheight
    refine (hinv.walked hb hheight).imp_left fun hk => ?_
    rcases List.mem_cons.mp hk with rfl | hk
    · exact (h b height hb hheight).elim
    · exact hk

/-- Walking through a block and carrying its last height over keeps the invariant. -/
theorem Invariant.step {index height after : Nat} {b : Block} {next : Frontier}
    (hlabels : WellLabelled code)
    (hinv : Invariant limit code entry off heights (index :: queue))
    (hb : (blocksOf code)[index]? = some b) (hheight : heights[index]? = some (some height))
    (hruns : runs (Instr.within limit) (b.body code) height = some after)
    (hspreads : Spreads after b.successors ⟨heights, queue⟩ next) :
    Invariant limit code entry (if b.runsOff code then some after else off) next.heights
      next.queue := by
  have hstart := hinv.grounded hb hheight
  constructor
  · exact hspreads.length.trans hinv.length
  · -- a height that is new is that of a path through the block
    intro k b' x hb' hx
    rcases hspreads.news hx with hold | ⟨rfl, hmem, -⟩
    · exact hinv.grounded hb' hold
    · obtain ⟨q, -, hgoes, b'', hb'', hq⟩ := (mem_successors_iff hlabels hb).mp hmem
      obtain rfl : b' = b'' := by simpa [hb'] using hb''
      exact hq ▸ reaches_after hb hstart hruns hgoes
  · intro x hx
    split at hx
    · next hoff =>
      cases hx
      exact reaches_after hb hstart hruns ((runsOff_iff hb).mp hoff)
    · exact hinv.exit hx
  · intro k b' x hb' hx
    have hsettles : ∀ j ∈ b.successors, next.heights[j]? = some (some after) := by
      intro j hj
      obtain ⟨q, -, -, b'', hb'', -⟩ := (mem_successors_iff hlabels hb).mp hj
      refine hspreads.settles hj ?_
      rw [hinv.length]
      exact (List.getElem?_eq_some_iff.mp hb'').1
    by_cases hk : k = index
    · -- the block itself
      subst hk
      obtain rfl : b = b' := by simpa [hb] using hb'
      obtain rfl : height = x := by simpa [hspreads.keeps hheight] using hx
      exact .inr ⟨after, hruns, hsettles, fun hoff => by rw [if_pos hoff]⟩
    · rcases hspreads.news hx with hold | ⟨-, -, hqueue⟩
      · rcases hinv.walked hb' hold with hmem | ⟨after', hruns', hnext, hoff⟩
        · exact .inl (hspreads.queue ((List.mem_cons.mp hmem).resolve_left hk))
        · refine .inr ⟨after', hruns', fun j hj => hspreads.keeps (hnext j hj), fun hoff' => ?_⟩
          have hother : ¬ b.runsOff code = true := fun h => hk (eq_of_runsOff hb' hb hoff' h)
          rw [if_neg hother, hoff hoff']
      · exact .inl hqueue

/-- A defect that the exploration reports is real. -/
theorem genuine_of_explore_error (hlabels : WellLabelled code) {d : Defect}
    (h : explore code limit ⟨blocksOf code⟩ off heights queue = .error d)
    (hinv : Invariant limit code entry off heights queue) : d.Genuine limit code entry := by
  fun_induction explore code limit ⟨blocksOf code⟩ off heights queue with
  | case1 => cases h
  | case2 off heights index queue b height hheight hb d' hwalk =>
      -- the walk through a block stops
      cases h
      obtain ⟨n, i, x, hi, hruns, hmisfits⟩ := misfits_of_walk_error hwalk
      obtain ⟨hn, hi⟩ := getElem?_body hi
      rw [take_body hn.le] at hruns
      exact hmisfits.genuine (reaches_inside hb (hinv.grounded hb hheight) hn hruns) hi
  | case3 off heights index queue b height hheight hb after hwalk d' hspread =>
      -- a successor is settled with another height
      cases h
      have hruns := walk_eq_ok_iff.mp hwalk
      obtain ⟨j, hj, x, hx, hne, rfl⟩ := exists_of_spread_error hspread
      obtain ⟨q, -, hgoes, b', hb', rfl⟩ := (mem_successors_iff hlabels hb).mp hj
      simp only [hb', Option.map_some, Option.getD_some]
      exact ⟨hinv.grounded hb' hx, reaches_after hb (hinv.grounded hb hheight) hruns hgoes, hne⟩
  | case4 off heights index queue b height hheight hb after hwalk next hspread ih =>
      simp only [dite_eq_ite] at ih
      exact ih h (hinv.step hlabels hb hheight (walk_eq_ok_iff.mp hwalk)
        (spreads_of_spread_ok hspread))
  | case5 off heights index queue hskip ih => exact ih h (hinv.skip hskip)

/-- Two heights that do not agree are reported at the start of a block, and the height
that is expected there is the one that was settled first. -/
theorem settled_of_explore_mismatch (hlabels : WellLabelled code) {p expected actual : Nat}
    (h : explore code limit ⟨blocksOf code⟩ off heights queue =
      .error (.heightMismatch p expected actual)) :
    ∃ k, Begins code k p ∧ ∀ x : Nat, heights[k]? = some (some x) → x = expected := by
  fun_induction explore code limit ⟨blocksOf code⟩ off heights queue with
  | case1 => cases h
  | case2 off heights index queue b height hheight hb d' hwalk =>
      cases h
      obtain ⟨n, i, x, -, -, hmisfits⟩ := misfits_of_walk_error hwalk
      rcases hmisfits with ⟨-, hd⟩ | ⟨-, -, hd⟩ <;> cases hd
  | case3 off heights index queue b height hheight hb after hwalk d' hspread =>
      cases h
      obtain ⟨j, hj, x, hx, -, hd⟩ := exists_of_spread_error hspread
      obtain ⟨q, -, -, b', hb', hq⟩ := (mem_successors_iff hlabels hb).mp hj
      simp only [hb', Option.map_some, Option.getD_some, Defect.heightMismatch.injEq] at hd
      obtain ⟨rfl, rfl, -⟩ := hd
      refine ⟨j, ⟨b', hb', rfl⟩, fun y hy => ?_⟩
      simpa [hx] using hy.symm
  | case4 off heights index queue b height hheight hb after hwalk next hspread ih =>
      simp only [dite_eq_ite] at ih
      obtain ⟨k, hk, hexpected⟩ := ih h
      exact ⟨k, hk, fun x hx => hexpected x ((spreads_of_spread_ok hspread).keeps hx)⟩
  | case5 off heights index queue hskip ih => exact ih h

/-- When the queue is empty, every settled block has been walked through. -/
theorem exists_invariant_of_explore_ok (hlabels : WellLabelled code) {final : Option Nat}
    (h : explore code limit ⟨blocksOf code⟩ off heights queue = .ok final)
    (hinv : Invariant limit code entry off heights queue) :
    ∃ heights', Invariant limit code entry final heights' [] ∧
      ∀ k x : Nat, heights[k]? = some (some x) → heights'[k]? = some (some x) := by
  fun_induction explore code limit ⟨blocksOf code⟩ off heights queue with
  | case1 =>
      cases h
      exact ⟨_, hinv, fun _ _ hx => hx⟩
  | case2 => cases h
  | case3 => cases h
  | case4 off heights index queue b height hheight hb after hwalk next hspread ih =>
      simp only [dite_eq_ite] at ih
      have hspreads := spreads_of_spread_ok hspread
      obtain ⟨heights', hinv', hkeeps⟩ :=
        ih h (hinv.step hlabels hb hheight (walk_eq_ok_iff.mp hwalk) hspreads)
      exact ⟨heights', hinv', fun k x hx => hkeeps k x (hspreads.keeps hx)⟩
  | case5 off heights index queue hskip ih => exact ih h (hinv.skip hskip)

end Invariant

/-! ## What the settled heights cover -/

/-- A position and a height are in the walk through a settled block, or are those
with which control runs off the end. -/
def Covered (limit : Nat) (code : List Instr) (off : Option Nat) (heights : List (Option Nat))
    (p height : Nat) : Prop :=
  (∃ (k n : Nat) (b : Block) (first : Nat), (blocksOf code)[k]? = some b ∧
      heights[k]? = some (some first) ∧ p = b.start + n ∧ p < b.stop ∧
      runs (Instr.within limit) (segment code b.start n) first = some height) ∨
    p = code.length ∧ off = some height

section Covered

variable {limit entry : Nat} {code : List Instr} {off : Option Nat} {heights : List (Option Nat)}
  {p height : Nat}

/-- At a position one height is covered. -/
theorem Covered.unique {other : Nat} (h : Covered limit code off heights p height)
    (h' : Covered limit code off heights p other) : height = other := by
  rcases h with ⟨k, n, b, first, hb, hfirst, rfl, hlt, hruns⟩ | ⟨rfl, hoff⟩
  · rcases h' with ⟨k', n', b', first', hb', hfirst', heq, hlt', hruns'⟩ | ⟨hend, -⟩
    · obtain rfl : k = k' := block_unique hb hb' ⟨Nat.le_add_right _ _, hlt⟩ (by omega)
      obtain rfl : b = b' := by simpa [hb] using hb'
      obtain rfl : first = first' := by simpa [hfirst] using hfirst'
      obtain rfl : n = n' := by omega
      rw [hruns, Option.some.injEq] at hruns'
      exact hruns'
    · have := stop_le_length hb
      omega
  · rcases h' with ⟨k', n', b', first', hb', -, heq, hlt', -⟩ | ⟨-, hoff'⟩
    · have := stop_le_length hb'
      omega
    · rw [hoff, Option.some.injEq] at hoff'
      exact hoff'

/-- At a covered height an instruction can be executed, and what control can go
to is covered again. -/
theorem Covered.step (hlabels : WellLabelled code)
    (hinv : Invariant limit code entry off heights [])
    (h : Covered limit code off heights p height) {i : Instr} (hi : code[p]? = some i) :
    i.within limit height = some (i.heightAfter height) ∧
      ∀ q, Goes code p q → Covered limit code off heights q (i.heightAfter height) := by
  rcases h with ⟨k, n, b, first, hb, hfirst, rfl, hlt, hruns⟩ | ⟨rfl, -⟩
  · obtain ⟨after, hbody, hnext, hoff⟩ := (hinv.walked hb hfirst).resolve_left List.not_mem_nil
    -- the walk through the whole block gets past the instruction
    obtain ⟨x, hx⟩ := runs_segment_of_le (m := n + 1) hbody (by omega)
    have hwithin : i.within limit height = some x := by
      rwa [runs_segment_succ hi, hruns, Option.bind_some] at hx
    obtain ⟨-, -, rfl⟩ := Instr.within_eq_some_iff.mp hwithin
    refine ⟨hwithin, fun q hgoes => ?_⟩
    rcases Nat.lt_or_ge (b.start + n + 1) b.stop with hinside | hlast
    · obtain rfl := (goes_iff_of_inside hb (Nat.le_add_right _ _) hinside).mp hgoes
      exact .inl ⟨k, n + 1, b, first, hb, hfirst, rfl, hinside, hx⟩
    · have hend : b.start + n = b.stop - 1 := by omega
      obtain rfl : i.heightAfter height = after := by
        rw [show n + 1 = b.stop - b.start by omega] at hx
        exact Option.some.inj (hx.symm.trans hbody)
      rw [hend] at hgoes
      rcases hgoes.le_length.lt_or_eq with hq | rfl
      · obtain ⟨j, hbegins⟩ := exists_begins_of_goes hb hgoes hq
        have hj := hnext j ((mem_successors_iff hlabels hb).mpr ⟨q, hq, hgoes, hbegins⟩)
        obtain ⟨b', hb', rfl⟩ := hbegins
        exact .inl ⟨j, 0, b', _, hb', hj, rfl, start_lt_stop hb', rfl⟩
      · exact .inr ⟨rfl, hoff ((runsOff_iff hb).mpr hgoes)⟩
  · exact absurd (lt_length_of_getElem? hi) (Nat.lt_irrefl _)

/-- All paths stay where the settled heights cover them. -/
theorem covered_of_reaches (hlabels : WellLabelled code)
    (hinv : Invariant limit code entry off heights [])
    (hstart : Covered limit code off heights 0 entry)
    (h : Reaches Instr.unchecked code entry p height) :
    Covered limit code off heights p height := by
  induction h with
  | start => exact hstart
  | step _ hi hact hgoes ih =>
      cases hact
      exact (ih.step hlabels hinv hi).2 _ hgoes

end Covered

end Flow

end Lockstep
