import Lockstep.Flow.Graph

/-!
# Stack heights

The check that a machine makes before it runs code: along every path each
instruction finds the slots it pops, the height never exceeds a limit, and all
paths to a position arrive with one height.  The answer is the height with which
control runs off the end.

Each block is entered with one height, which is settled when the first path
reaches it; the block is then queued, and walked through once.  `spread` carries
a height over to the successors of a block: each of them either is settled and
must agree, or leaves the ranks of the unsettled for the queue.  So twice the
number of unsettled blocks, plus the length of the queue, falls with every block
that is taken off the queue.
-/

namespace Lockstep.Flow

/-- The limit on the height when none is given. -/
def standardLimit : Nat := 1024

/-- The height after a run of instructions that starts at a position with a
height. -/
def walk (limit position height : Nat) : List Instr → Except Defect Nat
  | [] => .ok height
  | i :: rest =>
    let e := i.effect
    if height < e.pops then .error (.underflow position e.pops height)
    else
      let after := height - e.pops + e.pushes
      if limit < after then .error (.overflow position after limit)
      else walk limit (position + 1) after rest

def Block.body (b : Block) (code : List Instr) : List Instr :=
  (code.drop b.start).take (b.stop - b.start)

/-- Whether control runs off the end of the code from a block. -/
def Block.runsOff (b : Block) (code : List Instr) : Bool :=
  b.stop = code.length &&
    match code[b.stop - 1]? with
    | some (.goto _) => false
    | _ => true

/-- The entry heights of blocks that are settled, by index, and the blocks that
are still to be walked through. -/
structure Frontier where
  heights : List (Option Nat)
  queue : List Nat

namespace Frontier

/-- What falls with every step of the check. -/
def measure (f : Frontier) : Nat := 2 * f.heights.count none + f.queue.length

def settle (f : Frontier) (index height : Nat) : Frontier :=
  ⟨f.heights.set index (some height), f.queue ++ [index]⟩

private theorem count_set_some {heights : List (Option Nat)} {index : Nat} (height : Nat)
    (h : heights[index]? = some none) :
    (heights.set index (some height)).count none + 1 = heights.count none := by
  obtain ⟨lt, eq⟩ := List.getElem?_eq_some_iff.mp h
  have pos : 0 < heights.count none :=
    List.count_pos_iff.mpr (eq ▸ List.getElem_mem lt)
  rw [List.count_set lt, eq]
  simp
  omega

/-- A block that is settled for the first time leaves the measure smaller. -/
theorem measure_settle_lt {f : Frontier} {index height : Nat}
    (h : f.heights[index]? = some none) : (f.settle index height).measure < f.measure := by
  have := count_set_some height h
  simp only [measure, settle, List.length_append, List.length_cons, List.length_nil]
  omega

end Frontier

/-- Carries a height over to some successors. -/
def spread (g : Graph) (height : Nat) : List Nat → Frontier → Except Defect Frontier
  | [], f => .ok f
  | index :: rest, f =>
    match f.heights[index]? with
    | none => spread g height rest f
    | some none => spread g height rest (f.settle index height)
    | some (some settled) =>
      if settled = height then spread g height rest f
      else
        .error (.heightMismatch ((g.blocks[index]?.map Block.start).getD 0) settled height)

theorem measure_spread_le {g : Graph} {height : Nat} {successors : List Nat}
    {f after : Frontier} (h : spread g height successors f = .ok after) :
    after.measure ≤ f.measure := by
  induction successors generalizing f with
  | nil =>
    cases h
    exact Nat.le_refl _
  | cons index rest ih =>
    unfold spread at h
    split at h
    · exact ih h
    · exact Nat.le_trans (ih h) (Nat.le_of_lt (Frontier.measure_settle_lt ‹_›))
    · split at h
      · exact ih h
      · cases h

/-- Walks through the queued blocks, and gives the height with which control
runs off the end, if it does. -/
def explore (code : List Instr) (limit : Nat) (g : Graph) (off : Option Nat)
    (heights : List (Option Nat)) : List Nat → Except Defect (Option Nat)
  | [] => .ok off
  | index :: queue =>
    match g.blocks[index]?, heights[index]? with
    | some block, some (some height) =>
      match walk limit block.start height (block.body code) with
      | .error defect => .error defect
      | .ok after =>
        match _step : spread g after block.successors ⟨heights, queue⟩ with
        | .error defect => .error defect
        | .ok next =>
          explore code limit g (if block.runsOff code then some after else off)
            next.heights next.queue
    | _, _ => explore code limit g off heights queue
termination_by queue => Frontier.measure ⟨heights, queue⟩
decreasing_by
  · have le := measure_spread_le _step
    simp only [Frontier.measure, List.length_cons] at le ⊢
    omega
  · simp only [Frontier.measure, List.length_cons]
    omega

/-- Checks code that is entered with a height, and gives the height with which
control runs off its end. -/
def verify (limit : Nat) (code : List Instr) (entry : Nat) : Except Defect Nat :=
  if code.isEmpty then .ok entry
  else
    match Graph.ofCode code with
    | .error defect => .error defect
    | .ok g =>
      let heights := (List.replicate g.blocks.length none).set 0 (some entry)
      match explore code limit g none heights [0] with
      | .error defect => .error defect
      | .ok none => .error .noFallThrough
      | .ok (some height) => .ok height

end Lockstep.Flow
