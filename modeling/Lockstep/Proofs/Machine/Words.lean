import Mathlib
import Lockstep.Proofs.Flow.Fragments
import Lockstep.Proofs.Stack.Accesses
import Lockstep.Trace.Replay

/-!
# Moving values on a stack of words

The machine knows no values, only words: a value of one slot is one word, a value of
two slots is two.  The instructions that move values about are given here by what they
do to words, whatever values the words belong to (`Instr.onWords`).

An operation that only moves entries does to the list of values what it does to the
list of types, without looking at what is in it: it discards the top, cuts the list
down, doubles the top, or exchanges the top two.  `Rearrangement` is such a change of
lists.  `Rearranges s s' r` says of a run from `s` to `s'` that it is `r` on both
sides: the types have been rearranged, and the emitted code makes of the words of any
values of these types the words of the values rearranged.

## Strategy

A rearrangement commutes with mapping, so the types of rearranged values are the
rearranged types.  That is what the invariant needs to be composed
(`Rearranges.trans`): one lemma for each of the four operations, and an induction
over the steps, give it for every run.
-/

namespace Lockstep

open Lockstep.Flow

/-! ## Words -/

/-- What the instructions that move values do to a stack of words, the top first. -/
def Instr.onWords {ω : Type} : Instr → List ω → Option (List ω)
  | .pop, _ :: rest => some rest
  | .pop2, _ :: _ :: rest => some rest
  | .dup, a :: rest => some (a :: a :: rest)
  | .dup2, a :: b :: rest => some (a :: b :: a :: b :: rest)
  | .dupX2, a :: b :: c :: rest => some (a :: b :: c :: a :: rest)
  | .dup2X1, a :: b :: c :: rest => some (a :: b :: c :: a :: b :: rest)
  | .dup2X2, a :: b :: c :: d :: rest => some (a :: b :: c :: d :: a :: b :: rest)
  | .swap, a :: b :: rest => some (b :: a :: rest)
  | _, _ => none

/-- A value of a type, by the words that it takes on the machine's stack, the top one
first. -/
structure Value (ω : Type) where
  type : ValueType
  words : List ω
  fits : words.length = type.slots

/-- The words of some values, laid out on the machine's stack. -/
def layout {ω : Type} (values : List (Value ω)) : List ω := values.flatMap Value.words

section Words

variable {ω : Type}

theorem layout_cons (v : Value ω) (values : List (Value ω)) :
    layout (v :: values) = v.words ++ layout values := List.flatMap_cons

theorem layout_append (values values' : List (Value ω)) :
    layout (values ++ values') = layout values ++ layout values' := List.flatMap_append

theorem length_layout (values : List (Value ω)) :
    (layout values).length = ValueType.totalSlots (values.map Value.type) := by
  induction values with
  | nil => rfl
  | cons v rest ih =>
      rw [layout_cons, List.length_append, v.fits, ih, List.map_cons, ValueType.totalSlots]

/-- Whatever the slots of some types contain is the layout of values of these types. -/
theorem exists_layout (ts : List ValueType) (ws : List ω)
    (h : ws.length = ValueType.totalSlots ts) :
    ∃ values : List (Value ω), values.map Value.type = ts ∧ layout values = ws := by
  induction ts generalizing ws with
  | nil =>
      have hnil : ws = [] := List.length_eq_zero_iff.mp h
      exact ⟨[], rfl, hnil.symm⟩
  | cons t rest ih =>
      rw [ValueType.totalSlots] at h
      have hrest : (ws.drop t.slots).length = ValueType.totalSlots rest := by
        rw [List.length_drop]
        omega
      have hfits : (ws.take t.slots).length = t.slots := by
        rw [List.length_take]
        omega
      obtain ⟨values, htypes, hlayout⟩ := ih _ hrest
      refine ⟨⟨t, ws.take t.slots, hfits⟩ :: values, by rw [List.map_cons, htypes], ?_⟩
      rw [layout_cons, hlayout]
      exact List.take_append_drop _ _

/-- A layout can be read in one way only. -/
theorem layout_injective {values values' : List (Value ω)}
    (htypes : values.map Value.type = values'.map Value.type)
    (h : layout values = layout values') : values = values' := by
  induction values generalizing values' with
  | nil => exact (List.map_eq_nil_iff.mp htypes.symm).symm
  | cons v rest ih =>
      cases values' with
      | nil => cases htypes
      | cons v' rest' =>
          obtain ⟨htype, hrest⟩ := List.cons.inj htypes
          rw [layout_cons, layout_cons] at h
          have hlength : v.words.length = v'.words.length := by
            rw [v.fits, v'.fits, htype]
          obtain ⟨hwords, hlayout⟩ := List.append_inj h hlength
          obtain rfl := ih hrest hlayout
          cases v
          cases v'
          simp_all

/-- A value is one word or two. -/
theorem Value.words_cases (v : Value ω) :
    (v.type.width = .one ∧ ∃ a, v.words = [a]) ∨
      (v.type.width = .two ∧ ∃ a b, v.words = [a, b]) := by
  have hfits := v.fits
  unfold ValueType.slots at hfits
  cases hwidth : v.type.width with
  | one =>
      rw [hwidth] at hfits
      exact .inl ⟨rfl, List.length_eq_one_iff.mp hfits⟩
  | two =>
      rw [hwidth] at hfits
      exact .inr ⟨rfl, List.length_eq_two.mp hfits⟩

/-! ## The code that moves values -/

variable (v u : Value ω) (rest : List ω)

theorem runs_discard : runs Instr.onWords [v.type.discard] (v.words ++ rest) = some rest := by
  rcases v.words_cases with ⟨hwidth, a, hwords⟩ | ⟨hwidth, a, b, hwords⟩ <;>
    simp [runs, ValueType.discard, hwidth, hwords, Instr.onWords]

theorem runs_discards (values : List (Value ω)) :
    runs Instr.onWords (values.map fun v => v.type.discard) (layout values ++ rest) =
      some rest := by
  induction values with
  | nil => rfl
  | cons v values ih =>
      have happend : v.type.discard :: values.map (fun v => v.type.discard) =
          [v.type.discard] ++ values.map fun v => v.type.discard := rfl
      rw [List.map_cons, happend, runs_append, layout_cons, List.append_assoc, runs_discard,
        Option.bind_some, ih]

theorem runs_duplicate :
    runs Instr.onWords [v.type.duplicate] (v.words ++ rest) =
      some (v.words ++ (v.words ++ rest)) := by
  rcases v.words_cases with ⟨hwidth, a, hwords⟩ | ⟨hwidth, a, b, hwords⟩ <;>
    simp [runs, ValueType.duplicate, hwidth, hwords, Instr.onWords]

/-- In each of the four combinations of widths the words of both values change
places, and keep their order. -/
theorem runs_exchange :
    runs Instr.onWords (v.type.exchange u.type) (v.words ++ (u.words ++ rest)) =
      some (u.words ++ (v.words ++ rest)) := by
  rcases v.words_cases with ⟨hv, a, hvwords⟩ | ⟨hv, a, b, hvwords⟩ <;>
    rcases u.words_cases with ⟨hu, d, huwords⟩ | ⟨hu, d, e, huwords⟩ <;>
      simp [runs, ValueType.exchange, hv, hu, hvwords, huwords, Instr.onWords]

end Words

/-! ## Rearrangements -/

/-- A change of lists that does not look at what is in them. -/
structure Rearrangement where
  on : {α : Type} → List α → List α
  map_on : ∀ {α β : Type} (f : α → β) (xs : List α), on (xs.map f) = (on xs).map f

namespace Rearrangement

theorem ext {r r' : Rearrangement} (h : ∀ {α : Type} (xs : List α), r.on xs = r'.on xs) :
    r = r' := by
  obtain ⟨on, map_on⟩ := r
  obtain ⟨on', map_on'⟩ := r'
  have hon : @on = @on' := by
    funext α xs
    exact h xs
  subst hon
  rfl

def identity : Rearrangement := ⟨fun xs => xs, fun _ _ => rfl⟩

/-- One rearrangement after another. -/
def andThen (r r' : Rearrangement) : Rearrangement where
  on xs := r'.on (r.on xs)
  map_on f xs := by rw [r.map_on, r'.map_on]

/-- Discards the top. -/
def discardTop : Rearrangement := ⟨List.tail, fun _ _ => List.map_tail.symm⟩

/-- Cuts a list down to the undermost so many. -/
def cutTo (mark : Nat) : Rearrangement where
  on xs := xs.drop (xs.length - mark)
  map_on f xs := by rw [List.length_map, List.map_drop]

/-- Doubles the top. -/
def doubleTop : Rearrangement where
  on
    | [] => []
    | x :: xs => x :: x :: xs
  map_on f xs := by cases xs <;> rfl

/-- Exchanges the top two. -/
def exchangeTop : Rearrangement where
  on
    | x :: y :: xs => y :: x :: xs
    | xs => xs
  map_on f xs := by
    rcases xs with _ | ⟨x, _ | ⟨y, xs⟩⟩ <;> rfl

end Rearrangement

/-- The operations that only move entries about. -/
inductive Shuffle where
  | pop
  | popDownTo (mark : UInt64)
  | dup
  | swap
  deriving DecidableEq, Repr

namespace Shuffle

def step : Shuffle → Step
  | .pop => .pop
  | .popDownTo mark => .popDownTo mark
  | .dup => .dup
  | .swap => .swap

/-- What a shuffle does to any list. -/
def rearrangement : Shuffle → Rearrangement
  | .pop => .discardTop
  | .popDownTo mark => .cutTo mark.toNat
  | .dup => .doubleTop
  | .swap => .exchangeTop

/-- What several shuffles do to any list, one after the other. -/
def rearrangements : List Shuffle → Rearrangement
  | [] => .identity
  | shuffle :: rest => shuffle.rearrangement.andThen (rearrangements rest)

theorem rearrangements_swap_swap : rearrangements [.swap, .swap] = .identity := by
  refine Rearrangement.ext fun xs => ?_
  rcases xs with _ | ⟨x, _ | ⟨y, xs⟩⟩ <;> rfl

theorem rearrangements_dup_pop : rearrangements [.dup, .pop] = .identity := by
  refine Rearrangement.ext fun xs => ?_
  cases xs <;> rfl

end Shuffle

/-! ## The invariant -/

variable {c : Context} {s s' s'' : State}

/-- A run rearranges the types of the model, and its code the words of the values. -/
structure Rearranges (s s' : State) (r : Rearrangement) : Prop where
  entries_eq : s'.entries = r.on s.entries
  exists_code : ∃ code, s'.code.toList = s.code.toList ++ code ∧
    ∀ {ω : Type} (values : List (Value ω)), values.map Value.type = s.entries →
      runs Instr.onWords code (layout values) = some (layout (r.on values))

namespace Rearranges

variable {r r' : Rearrangement}

theorem refl (s : State) : Rearranges s s .identity :=
  ⟨rfl, [], by simp, fun _ _ => rfl⟩

theorem trans (h : Rearranges s s' r) (h' : Rearranges s' s'' r') :
    Rearranges s s'' (r.andThen r') := by
  obtain ⟨code, hemitted, hruns⟩ := h.exists_code
  obtain ⟨code', hemitted', hruns'⟩ := h'.exists_code
  refine ⟨?_, code ++ code', ?_, ?_⟩
  · rw [h'.entries_eq, h.entries_eq]
    rfl
  · rw [hemitted', hemitted, List.append_assoc]
  · intro ω values htypes
    have htypes' : (r.on values).map Value.type = s'.entries := by
      rw [← r.map_on, htypes, h.entries_eq]
    rw [runs_append, hruns values htypes, Option.bind_some, hruns' _ htypes']
    rfl

/-- An operation that appends some code and puts the rearranged entries in place. -/
theorem of_appending {is : List Instr} {ts : List ValueType} (hentries : ts = r.on s.entries)
    (hruns : ∀ {ω : Type} (values : List (Value ω)), values.map Value.type = s.entries →
      runs Instr.onWords is (layout values) = some (layout (r.on values))) :
    Rearranges s ((s.appending c is).withEntries ts) r :=
  ⟨hentries, is, by simp, hruns⟩

end Rearranges

/-! ## One shuffle -/

theorem rearranges_pop (h : Op.pop.run c s = .ok () s') : Rearranges s s' .discardTop := by
  rw [Op.run_pop] at h
  split at h
  · cases h
  · next t rest hentries =>
    cases h
    refine .of_appending (by rw [hentries]; rfl) fun values htypes => ?_
    rw [hentries] at htypes
    obtain ⟨v, values, rfl, rfl, -⟩ := List.map_eq_cons_iff.mp htypes
    exact runs_discard v (layout values)

theorem rearranges_popDownTo {mark : Nat} (h : (Op.popDownTo mark).run c s = .ok () s') :
    Rearranges s s' (.cutTo mark) := by
  rw [Op.run_popDownTo] at h
  split at h
  · cases h
  · cases h
    refine .of_appending rfl fun values htypes => ?_
    have hsize : s.size = values.length := by
      rw [State.size, ← htypes, List.length_map]
    -- the values that go are those on top, and each of them goes with its own words
    have hcode : (s.entries.take (s.size - mark)).map ValueType.discard =
        (values.take (values.length - mark)).map fun v => v.type.discard := by
      rw [hsize, ← htypes, ← List.map_take, List.map_map]
      rfl
    have hsplit : layout values = layout (values.take (values.length - mark)) ++
        layout (values.drop (values.length - mark)) := by
      rw [← layout_append, List.take_append_drop]
    rw [hcode, hsplit, runs_discards]
    rfl

theorem rearranges_dup (h : Op.dup.run c s = .ok () s') : Rearranges s s' .doubleTop := by
  rw [Op.run_dup] at h
  split at h
  · cases h
  · next t rest hentries =>
    cases h
    refine .of_appending (by rw [hentries]; rfl) fun values htypes => ?_
    rw [hentries] at htypes
    obtain ⟨v, values, rfl, rfl, -⟩ := List.map_eq_cons_iff.mp htypes
    exact runs_duplicate v (layout values)

theorem rearranges_swap (h : Op.swap.run c s = .ok () s') : Rearranges s s' .exchangeTop := by
  rw [Op.run_swap] at h
  split at h
  · cases h
  · cases h
  · next top below rest hentries =>
    cases h
    refine .of_appending (by rw [hentries]; rfl) fun values htypes => ?_
    rw [hentries] at htypes
    obtain ⟨v, above, rfl, rfl, hbelow⟩ := List.map_eq_cons_iff.mp htypes
    obtain ⟨u, values, rfl, rfl, -⟩ := List.map_eq_cons_iff.mp hbelow
    exact runs_exchange v u (layout values)

theorem Shuffle.rearranges (shuffle : Shuffle) (h : shuffle.step.perform.run c s = .ok () s') :
    Rearranges s s' shuffle.rearrangement := by
  cases shuffle with
  | pop => exact rearranges_pop h
  | popDownTo mark => exact rearranges_popDownTo h
  | dup => exact rearranges_dup h
  | swap => exact rearranges_swap h

/-! ## Runs -/

/-- A run of shuffles rearranges types and words as its shuffles say. -/
theorem rearranges_of_perform {number : Nat} {shuffles : List Shuffle}
    (h : Trace.perform c number s (shuffles.map Shuffle.step) = (.ok (), s')) :
    Rearranges s s' (Shuffle.rearrangements shuffles) := by
  induction shuffles generalizing number s with
  | nil =>
      cases h
      exact .refl _
  | cons shuffle rest ih =>
      rw [List.map_cons, Trace.perform] at h
      split at h
      · next after hstep => exact (shuffle.rearranges hstep).trans (ih h)
      · cases h

theorem exists_perform_swap_swap (c : Context) (s : State) (number : Nat) (h : 2 ≤ s.size) :
    ∃ s', Trace.perform c number s [.swap, .swap] = (.ok (), s') := by
  obtain ⟨top, below, rest, hentries⟩ : ∃ top below rest, s.entries = top :: below :: rest := by
    match hentries : s.entries with
    | [] | [_] => simp [State.size, hentries] at h
    | top :: below :: rest => exact ⟨top, below, rest, rfl⟩
  simp [Trace.perform, Step.perform, Op.run_swap, hentries]

theorem exists_perform_dup_pop (c : Context) (s : State) (number : Nat) (h : 1 ≤ s.size) :
    ∃ s', Trace.perform c number s [.dup, .pop] = (.ok (), s') := by
  obtain ⟨top, rest, hentries⟩ : ∃ top rest, s.entries = top :: rest :=
    List.exists_cons_of_length_pos h
  simp [Trace.perform, Step.perform, Op.run_dup, Op.run_pop, hentries]

theorem perform_popDownTo (c : Context) (s : State) (number : Nat) (mark : UInt64)
    (h : mark.toNat ≤ s.size) :
    Trace.perform c number s [.popDownTo mark] =
      (.ok (), (s.appending c ((s.entries.take (s.size - mark.toNat)).map
        ValueType.discard)).withEntries (s.entries.drop (s.size - mark.toNat))) := by
  have hrun : (Step.popDownTo mark).perform.run c s = _ := Op.run_popDownTo c s mark.toNat
  rw [if_neg (Nat.not_lt_of_le h)] at hrun
  rw [Trace.perform, hrun]
  rfl

/-- So many discards succeed as there are entries, and leave what is below them. -/
theorem perform_pops (c : Context) (s : State) (number count : Nat) (h : count ≤ s.size) :
    Trace.perform c number s (List.replicate count .pop) =
      (.ok (), (s.appending c ((s.entries.take count).map ValueType.discard)).withEntries
        (s.entries.drop count)) := by
  induction count generalizing s number with
  | zero => simp [Trace.perform]
  | succ count ih =>
      cases hentries : s.entries with
      | nil =>
          rw [State.size, hentries] at h
          cases h
      | cons t rest =>
          have hpop : Step.pop.perform.run c s =
              .ok () ((s.appending c [t.discard]).withEntries rest) := by
            rw [Step.perform, Op.run_pop, hentries]
          have hrest : count ≤ ((s.appending c [t.discard]).withEntries rest).size := by
            rw [State.size, hentries, List.length_cons] at h
            exact Nat.le_of_succ_le_succ h
          rw [List.replicate_succ, Trace.perform, hpop]
          show Trace.perform c (number + 1) _ _ = _
          rw [ih _ _ hrest]
          simp

/-- What the slots of a model can contain are the layouts of values of its types, each of
exactly one list of values.  A run of shuffles that succeeds rearranges these values as
it does the types; exchanging twice, and doubling and discarding, change nothing; and
cutting down to a mark does what so many discards do. -/
theorem shuffles_rearrange (c : Context) (s : State) (number : Nat) :
    (∀ {ω : Type} (ws : List ω), ws.length = s.slots ↔
      ∃! values : List (Value ω), values.map Value.type = s.entries ∧ layout values = ws) ∧
    (∀ (shuffles : List Shuffle) (s' : State),
      Trace.perform c number s (shuffles.map Shuffle.step) = (.ok (), s') →
        Rearranges s s' (Shuffle.rearrangements shuffles)) ∧
    (2 ≤ s.size → ∃ s', Trace.perform c number s [.swap, .swap] = (.ok (), s') ∧
      Rearranges s s' .identity) ∧
    (1 ≤ s.size → ∃ s', Trace.perform c number s [.dup, .pop] = (.ok (), s') ∧
      Rearranges s s' .identity) ∧
    ∀ mark : UInt64, mark.toNat ≤ s.size →
      ∃ s', Trace.perform c number s [.popDownTo mark] = (.ok (), s') ∧
        Trace.perform c number s (List.replicate (s.size - mark.toNat) .pop) = (.ok (), s') := by
  refine ⟨fun ws => ⟨fun hlength => ?_, ?_⟩, fun shuffles s' h => rearranges_of_perform h,
    fun hsize => ?_, fun hsize => ?_, fun mark hmark => ?_⟩
  · obtain ⟨values, htypes, hlayout⟩ := exists_layout s.entries ws hlength
    refine ⟨values, ⟨htypes, hlayout⟩, ?_⟩
    rintro values' ⟨htypes', hlayout'⟩
    exact layout_injective (htypes'.trans htypes.symm) (hlayout'.trans hlayout.symm)
  · rintro ⟨values, ⟨htypes, rfl⟩, -⟩
    rw [length_layout, htypes]
    rfl
  · obtain ⟨s', hrun⟩ := exists_perform_swap_swap c s number hsize
    refine ⟨s', hrun, ?_⟩
    rw [← Shuffle.rearrangements_swap_swap]
    exact rearranges_of_perform hrun
  · obtain ⟨s', hrun⟩ := exists_perform_dup_pop c s number hsize
    refine ⟨s', hrun, ?_⟩
    rw [← Shuffle.rearrangements_dup_pop]
    exact rearranges_of_perform hrun
  · exact ⟨_, perform_popDownTo c s number mark hmark, perform_pops c s number _ (Nat.sub_le _ _)⟩

/-- A `double` above an `int` above a `long`. -/
def wideState : State :=
  State.initial.withEntries [.primitive .double, .primitive .int, .primitive .long]

/-- The `int` is brought to the top and discarded, the other two are exchanged, and the
`long` is doubled. -/
theorem shuffles_rearrange_wide :
    ∃ (c : Context) (s' : State),
      Trace.perform c 1 wideState [.swap, .popDownTo 2, .swap, .dup] = (.ok (), s') ∧
      s'.code.toList = [.dup2X1, .pop2, .pop, .dup2X2, .pop2, .dup2] ∧
      s'.entries = [.primitive .long, .primitive .long, .primitive .double] ∧
      runs Instr.onWords s'.code.toList [1, 2, 3, 4, 5] = some [4, 5, 4, 5, 1, 2] ∧
      (∃! values : List (Value Nat), values.map Value.type = wideState.entries ∧
        layout values = [1, 2, 3, 4, 5]) ∧
      (∃ s'', Trace.perform c 1 wideState [.swap, .swap] = (.ok (), s'') ∧
        Rearranges wideState s'' .identity) ∧
      (∃ s'', Trace.perform c 1 wideState [.dup, .pop] = (.ok (), s'') ∧
        Rearranges wideState s'' .identity) ∧
      ∃ s'', Trace.perform c 1 wideState [.popDownTo 1] = (.ok (), s'') ∧
        Trace.perform c 1 wideState [.pop, .pop] = (.ok (), s'') := by
  let c : Context := ⟨.empty, .standard, ⟨"a", "b", "c"⟩⟩
  let s' := (Trace.perform c 1 wideState [.swap, .popDownTo 2, .swap, .dup]).2
  let values : List (Value Nat) :=
    [⟨.primitive .double, [1, 2], rfl⟩, ⟨.primitive .int, [3], rfl⟩, ⟨.primitive .long, [4, 5], rfl⟩]
  have hrun : Trace.perform c 1 wideState [.swap, .popDownTo 2, .swap, .dup] = (.ok (), s') := rfl
  obtain ⟨hcontents, hruns, hswaps, hdups, hcut⟩ := shuffles_rearrange c wideState 1
  obtain ⟨hentries, code, hcode, hwords⟩ := hruns [.swap, .popDownTo 2, .swap, .dup] s' hrun
  have hall : s'.code.toList = code := hcode
  refine ⟨c, s', hrun, rfl, hentries, ?_, (hcontents _).mp rfl, hswaps (by decide), hdups (by decide),
    hcut 1 (by decide)⟩
  rw [hall]
  exact hwords values rfl

end Lockstep
