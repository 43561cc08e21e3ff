import Mathlib.Logic.Relation
import Lockstep.Proofs.Flow.Paths

/-!
# Fragments of code

Three ways to see that code carries a machine from one state to another:

* code without jumps and marks is run instruction by instruction
  (`Carries.of_runs`);
* code with branches is annotated with a state for each position, and each
  instruction is checked against the states around it (`Carries.of_annotates`);
* what carries one machine carries every machine that follows its steps
  (`Carries.map`), in particular the same machine with a guard on its states
  (`Carries.guard`).
-/

namespace Lockstep.Flow

variable {σ τ : Type} {act : Instr → σ → Option σ}

/-! ## Machines that follow one another -/

/-- Where one machine never gets stuck, a machine that follows its steps takes no
other paths. -/
theorem Carries.exists_of_reaches {act' : Instr → τ → Option τ} {code : List Instr} {s t : σ}
    (h : Carries act code s t) (f : σ → τ)
    (hact : ∀ {p i x x' y}, Reaches act code s p x → code[p]? = some i → act i x = some x' →
      act' i (f x) = some y → f x' = y) {p : Nat} {y : τ}
    (hreach : Reaches act' code (f s) p y) : ∃ x, Reaches act code s p x ∧ f x = y := by
  induction hreach with
  | start => exact ⟨s, .start, rfl⟩
  | step _ hi hstep hgoes ih =>
      obtain ⟨x, hx, rfl⟩ := ih
      obtain ⟨x', hx'⟩ := Option.isSome_iff_exists.mp (h.progress hx hi)
      exact ⟨x', .step hx hi hx' hgoes, hact hx hi hx' hstep⟩

/-- Wherever control can get to, the machine gets to. -/
theorem Carries.exists_of_reflTransGen {code : List Instr} {s t : σ} (h : Carries act code s t)
    {p : Nat} (hp : Relation.ReflTransGen (Goes code) 0 p) : ∃ x, Reaches act code s p x := by
  induction hp with
  | refl => exact ⟨s, .start⟩
  | tail _ hgoes ih =>
      obtain ⟨x, hx⟩ := ih
      obtain ⟨i, hi⟩ := hgoes.exists_instr
      obtain ⟨y, hy⟩ := Option.isSome_iff_exists.mp (h.progress hx hi)
      exact ⟨y, .step hx hi hy hgoes⟩

/-- What carries one machine carries every machine that makes the same steps. -/
theorem Carries.map {act' : Instr → τ → Option τ} {code : List Instr} {s t : σ}
    (h : Carries act code s t) (f : σ → τ)
    (hact : ∀ {p i x y}, Reaches act code s p x → code[p]? = some i → act i x = some y →
      act' i (f x) = some (f y)) : Carries act' code (f s) (f t) := by
  have forward : ∀ {p x}, Reaches act code s p x → Reaches act' code (f s) p (f x) := by
    intro p x hx
    induction hx with
    | start => exact .start
    | step hx hi hstep hgoes ih => exact .step ih hi (hact hx hi hstep) hgoes
  have back : ∀ {p y}, Reaches act' code (f s) p y → ∃ x, Reaches act code s p x ∧ f x = y := by
    refine h.exists_of_reaches f fun hx hi hstep hstep' => ?_
    rwa [hact hx hi hstep, Option.some.injEq] at hstep'
  constructor
  · intro p y i hy hi
    obtain ⟨x, hx, rfl⟩ := back hy
    obtain ⟨x', hx'⟩ := Option.isSome_iff_exists.mp (h.progress hx hi)
    rw [hact hx hi hx', Option.isSome_some]
  · intro p y z hy hz
    obtain ⟨x, hx, rfl⟩ := back hy
    obtain ⟨x', hx', rfl⟩ := back hz
    rw [h.agree hx hx']
  · exact forward h.ends

/-- A machine that refuses to go into some states. -/
def guarded (ok : σ → Prop) [DecidablePred ok] (act : Instr → σ → Option σ) (i : Instr) (s : σ) :
    Option σ :=
  (act i s).filter fun x => ok x

/-- A guard changes nothing if all states on the paths pass it. -/
theorem Carries.guard {code : List Instr} {s t : σ} (h : Carries act code s t)
    (hlabels : WellLabelled code) (ok : σ → Prop) [DecidablePred ok]
    (hok : ∀ {p x}, Reaches act code s p x → ok x) : Carries (guarded ok act) code s t := by
  refine h.map id fun {p i x y} hx hi hstep => ?_
  obtain ⟨q, hgoes⟩ := hlabels.exists_goes hi
  have hy : ok y := hok (.step hx hi hstep hgoes)
  simp [guarded, hstep, hy]

/-! ## Straight code -/

/-- Runs instructions one after the other. -/
def runs (act : Instr → σ → Option σ) : List Instr → σ → Option σ
  | [], s => some s
  | i :: rest, s => (act i s).bind (runs act rest)

/-- Code without jumps and marks. -/
def Straight (code : List Instr) : Prop := ∀ i ∈ code, i.target? = none ∧ i.marked? = none

theorem runs_append (a b : List Instr) (s : σ) :
    runs act (a ++ b) s = (runs act a s).bind (runs act b) := by
  induction a generalizing s with
  | nil => rfl
  | cons i rest ih =>
      rw [List.cons_append, runs, runs, Option.bind_assoc]
      congr 1
      funext x
      exact ih x

theorem Straight.append {a b : List Instr} (ha : Straight a) (hb : Straight b) :
    Straight (a ++ b) := fun i hi => (List.mem_append.mp hi).elim (ha i) (hb i)

theorem Straight.not_mark_mem {code : List Instr} (h : Straight code) (label : Label) :
    Instr.mark label ∉ code := fun hmem => by cases (h _ hmem).2

theorem Straight.wellLabelled {code : List Instr} (h : Straight code) : WellLabelled code := by
  constructor
  · rw [List.filterMap_eq_nil_iff.mpr fun i hi => (h i hi).2]
    exact List.nodup_nil
  · intro i hi label htarget
    rw [(h i hi).1] at htarget
    cases htarget

theorem Straight.goes_iff {code : List Instr} (h : Straight code) {p q : Nat} :
    Goes code p q ↔ p < code.length ∧ q = p + 1 := by
  constructor
  · intro hgoes
    obtain ⟨i, hi⟩ := hgoes.exists_instr
    exact ⟨hgoes.lt_length,
      (goes_iff_of_target?_eq_none hi (h i (List.mem_of_getElem? hi)).1).mp hgoes⟩
  · rintro ⟨hp, rfl⟩
    have hi := List.getElem?_eq_getElem hp
    exact (goes_iff_of_target?_eq_none hi (h _ (List.mem_of_getElem? hi)).1).mpr rfl

/-- In straight code a position is reached in the state after the instructions
before it. -/
theorem Straight.reaches_iff {code : List Instr} (h : Straight code) {p : Nat} {s x : σ} :
    Reaches act code s p x ↔ p ≤ code.length ∧ runs act (code.take p) s = some x := by
  constructor
  · intro hreach
    induction hreach with
    | start => exact ⟨Nat.zero_le _, rfl⟩
    | step _ hi hstep hgoes ih =>
        obtain ⟨hp, rfl⟩ := h.goes_iff.mp hgoes
        refine ⟨hp, ?_⟩
        rw [List.take_add_one, hi, Option.toList_some, runs_append, ih.2, Option.bind_some, runs,
          hstep]
        rfl
  · rintro ⟨hp, hruns⟩
    induction p generalizing x with
    | zero =>
        rw [List.take_zero, runs, Option.some.injEq] at hruns
        exact hruns ▸ .start
    | succ p ih =>
        have hi := List.getElem?_eq_getElem hp
        rw [List.take_add_one, hi, Option.toList_some, runs_append] at hruns
        obtain ⟨y, hy, hrest⟩ := Option.bind_eq_some_iff.mp hruns
        rw [runs, show runs act [] = some from rfl, Option.bind_fun_some] at hrest
        exact .step (ih (Nat.le_of_succ_le hp) hy) hi hrest (h.goes_iff.mpr ⟨hp, rfl⟩)

/-- Straight code that runs through carries. -/
theorem Carries.of_runs {code : List Instr} {s t : σ} (h : Straight code)
    (hruns : runs act code s = some t) : Carries act code s t := by
  constructor
  · intro p x i hx hi
    obtain ⟨hp, hx⟩ := h.reaches_iff.mp hx
    obtain ⟨hlt, hget⟩ := List.getElem?_eq_some_iff.mp hi
    rw [← List.take_append_drop p code, runs_append, hx, Option.bind_some,
      List.drop_eq_getElem_cons hlt, hget, runs] at hruns
    obtain ⟨y, hy, -⟩ := Option.bind_eq_some_iff.mp hruns
    exact Option.isSome_of_eq_some hy
  · intro p x y hx hy
    have heq := (h.reaches_iff.mp hx).2
    rw [(h.reaches_iff.mp hy).2, Option.some.injEq] at heq
    exact heq.symm
  · exact h.reaches_iff.mpr ⟨le_rfl, by rw [List.take_length, hruns]⟩

/-! ## Annotated code -/

/-- States written next to code: one before each instruction, and a last one.  A
mark has the state of its label; an instruction leads to the state next to the
position after it and to that of the label it names. -/
def Annotates (act : Instr → σ → Option σ) (atLabel : Label → σ) :
    List Instr → List σ → Prop
  | [], states => states.length = 1
  | _ :: _, [] => False
  | i :: rest, x :: states =>
      (∀ label, i.marked? = some label → x = atLabel label) ∧
        (∃ y, act i x = some y ∧ (i.fallsThrough = true → states.head? = some y) ∧
          ∀ label, i.target? = some label → y = atLabel label) ∧
        Annotates act atLabel rest states

theorem Annotates.of_getElem? {atLabel : Label → σ} {code : List Instr} {states : List σ}
    (h : Annotates act atLabel code states) {p : Nat} {i : Instr} (hi : code[p]? = some i) :
    ∃ x, states[p]? = some x ∧ (∀ label, i.marked? = some label → x = atLabel label) ∧
      ∃ y, act i x = some y ∧ (i.fallsThrough = true → states[p + 1]? = some y) ∧
        ∀ label, i.target? = some label → y = atLabel label := by
  induction code generalizing states p with
  | nil => simp at hi
  | cons j rest ih =>
      cases states with
      | nil => exact h.elim
      | cons x states =>
          obtain ⟨hmarked, hstep, hrest⟩ := h
          cases p with
          | zero =>
              obtain rfl : j = i := by simpa using hi
              refine ⟨x, rfl, hmarked, ?_⟩
              simpa [List.head?_eq_getElem?] using hstep
          | succ p => exact ih hrest (by simpa using hi)

theorem Annotates.getElem?_of_goes {atLabel : Label → σ} {code : List Instr} {states : List σ}
    (h : Annotates act atLabel code states) {p q : Nat} {i : Instr} {x y : σ}
    (hx : states[p]? = some x) (hi : code[p]? = some i) (hstep : act i x = some y)
    (hgoes : Goes code p q) : states[q]? = some y := by
  obtain ⟨x', hx', -, y', hy', hfalls, htarget⟩ := h.of_getElem? hi
  obtain rfl : x = x' := by simpa [hx] using hx'
  obtain rfl : y = y' := by simpa [hstep] using hy'
  cases hgoes with
  | falls hj hj' =>
      obtain rfl : i = _ := by simpa [hi] using hj
      exact hfalls hj'
  | jumps hj hlabel hq =>
      obtain rfl : i = _ := by simpa [hi] using hj
      obtain ⟨z, hz, hmark, -⟩ := h.of_getElem? hq
      rw [hz, hmark _ rfl, htarget _ hlabel]

/-- On every path the states are those next to the code. -/
theorem Annotates.getElem?_of_reaches {atLabel : Label → σ} {code : List Instr} {s : σ}
    {states : List σ} (h : Annotates act atLabel code (s :: states)) {p : Nat} {x : σ}
    (hreach : Reaches act code s p x) : (s :: states)[p]? = some x := by
  induction hreach with
  | start => rfl
  | step _ hi hstep hgoes ih => exact h.getElem?_of_goes ih hi hstep hgoes

/-- Control can go straight on as long as no instruction is an unconditional jump. -/
theorem reflTransGen_of_fallsThrough (code : List Instr) (n : Nat) (hn : n ≤ code.length)
    (h : ∀ i ∈ code.take n, i.fallsThrough = true) : Relation.ReflTransGen (Goes code) 0 n := by
  induction n with
  | zero => exact .refl
  | succ n ih =>
      have hi := List.getElem?_eq_getElem hn
      rw [List.take_add_one, hi, Option.toList_some] at h
      have hbefore := ih (Nat.le_of_succ_le hn) fun i hmem => h i (List.mem_append_left _ hmem)
      exact hbefore.tail (.falls hi (h _ (List.mem_append_right _ List.mem_cons_self)))

/-- Annotated code carries from the first state to the last, if control gets
from the beginning to the end at all. -/
theorem Carries.of_annotates {atLabel : Label → σ} {code : List Instr} {s t : σ}
    {states : List σ} (h : Annotates act atLabel code (s :: states))
    (hlast : (s :: states)[code.length]? = some t)
    (hends : Relation.ReflTransGen (Goes code) 0 code.length) : Carries act code s t := by
  have along : ∀ {p}, Relation.ReflTransGen (Goes code) 0 p →
      ∃ x, (s :: states)[p]? = some x ∧ Reaches act code s p x := by
    intro p hp
    induction hp with
    | refl => exact ⟨s, rfl, .start⟩
    | tail _ hgoes ih =>
        obtain ⟨x, hx, hreach⟩ := ih
        obtain ⟨i, hi⟩ := hgoes.exists_instr
        obtain ⟨x', hx', -, y, hy, -⟩ := h.of_getElem? hi
        obtain rfl : x = x' := by simpa [hx] using hx'
        exact ⟨y, h.getElem?_of_goes hx hi hy hgoes, .step hreach hi hy hgoes⟩
  constructor
  · intro p x i hx hi
    obtain ⟨x', hx', -, y, hy, -⟩ := h.of_getElem? hi
    obtain rfl : x = x' := by simpa [h.getElem?_of_reaches hx] using hx'
    exact Option.isSome_of_eq_some hy
  · intro p x y hx hy
    have heq := h.getElem?_of_reaches hx
    rw [h.getElem?_of_reaches hy, Option.some.injEq] at heq
    exact heq.symm
  · obtain ⟨x, hx, hreach⟩ := along hends
    obtain rfl : t = x := by simpa [hlast] using hx
    exact hreach

end Lockstep.Flow
