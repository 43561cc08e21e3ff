import Mathlib.Logic.Function.Iterate
import Lockstep.Proofs.Stack.Conversions
import Lockstep.Stack.Local

/-!
# What aliases stand for

To find out what a type stands for, one follows it: a name that is an alias to the type that
is declared for it, and an array into its component.  `Registry.Walks` counts these steps, and
a walk ends at a type that is neither an array nor an alias.  A box is no alias, whatever is
declared for the name of its class.  Some walks never end: an alias can stand for itself by way
of others, or for an array of itself.

`Registry.resolve` takes as many of these steps as it is given, or all that there are
(`resolve_of_walks`, `exists_walks_resolve`).  The steps through arrays and those through
aliases come out of one budget, so whether the limit is enough depends on their sum only:
where a walk ends within the limit, its end is the normal form, and an alias can be replaced
by what it stands for in every conversion (`canonical_of_walks`).

## Strategy

A walk that has gone into an array is still about the whole array.  So a `Place` has the
layers that were gone through together with the type inside them, and what one step preserves
is the whole type that the rest of the budget makes of a place (`resolve_of_follows`).
-/

namespace Lockstep

/-- Where a walk has come to: the layers of arrays that it has gone into, and the type
inside. -/
structure Place where
  layers : Nat
  focus : ValueType

namespace Place

/-- The type of an array with the layers of a place over another type. -/
def around (x : Place) (t : ValueType) : ValueType := ValueType.array^[x.layers] t

/-- The whole type that a walk is about. -/
def type (x : Place) : ValueType := x.around x.focus

/-- Where the walk of a type starts. -/
def start (t : ValueType) : Place := ⟨0, t⟩

@[simp]
theorem layers_start (t : ValueType) : (start t).layers = 0 := rfl

/-- One layer more is over an array. -/
theorem around_succ (layers : Nat) (t u : ValueType) :
    (Place.mk (layers + 1) t).around u = (Place.mk layers t).around (.array u) :=
  Function.iterate_succ_apply ValueType.array layers u

end Place

namespace Registry

variable {r : Registry} {t : ValueType} {x y z : Place} {m n : Nat}

/-! ## Walks -/

/-- One step of a walk: from an alias to what is declared for it, or into an array. -/
inductive Follows (r : Registry) : Place → Place → Prop
  | hop {layers : Nat} {name : String} {target : ValueType}
      (h : r.aliases.lookup name = some target) : Follows r ⟨layers, .named name⟩ ⟨layers, target⟩
  | layer {layers : Nat} {component : ValueType} :
      Follows r ⟨layers, .array component⟩ ⟨layers + 1, component⟩

/-- A walk of a number of steps. -/
inductive Walks (r : Registry) : Nat → Place → Place → Prop
  | refl (x : Place) : Walks r 0 x x
  | step {n : Nat} {x y z : Place} (h : r.Follows x y) (rest : r.Walks n y z) :
      Walks r (n + 1) x z

/-- No step leads on. -/
def Ends (r : Registry) (x : Place) : Prop := ∀ y, ¬ r.Follows x y

/-- A walk ends at what is neither an array nor an alias. -/
theorem ends_iff :
    r.Ends x ↔
      x.focus.isArray = false ∧ ∀ name, x.focus = .named name → r.aliases.lookup name = none := by
  obtain ⟨layers, focus⟩ := x
  constructor
  · intro hends
    constructor
    · cases focus with
      | array component => exact absurd .layer (hends ⟨layers + 1, component⟩)
      | _ => rfl
    · rintro name rfl
      rw [Option.eq_none_iff_forall_ne_some]
      intro target h
      exact hends ⟨layers, target⟩ (.hop h)
  · rintro ⟨harray, hname⟩ y hstep
    cases hstep with
    | hop h => cases h.symm.trans (hname _ rfl)
    | layer => cases harray

theorem Follows.unique (hy : r.Follows x y) (hz : r.Follows x z) : y = z := by
  cases hy with
  | hop h =>
      cases hz with
      | hop h' => rw [Option.some.inj (h.symm.trans h')]
  | layer =>
      cases hz
      rfl

/-- A walk has one end, and one number of steps to it. -/
theorem Walks.unique (hy : r.Walks m x y) (hends : r.Ends y) (hz : r.Walks n x z)
    (hends' : r.Ends z) : m = n ∧ y = z := by
  induction hy generalizing n with
  | refl x =>
      cases hz with
      | refl => exact ⟨rfl, rfl⟩
      | step h => exact absurd h (hends _)
  | step h _ ih =>
      cases hz with
      | refl => exact absurd h (hends' _)
      | step h' rest =>
          obtain rfl := h.unique h'
          obtain ⟨rfl, rfl⟩ := ih hends rest
          exact ⟨rfl, rfl⟩

theorem Follows.layers_le (h : r.Follows x y) : y.layers ≤ x.layers + 1 := by
  cases h with
  | hop => exact Nat.le_succ _
  | layer => exact Nat.le_refl _

/-- A walk goes into no more layers than it takes steps. -/
theorem Walks.layers_le (h : r.Walks n x y) : y.layers ≤ x.layers + n := by
  induction h with
  | refl => exact Nat.le_refl _
  | step h _ ih =>
      have hone := h.layers_le
      omega

/-- The layers of an array are gone through one by one. -/
theorem walks_layers (r : Registry) (layers count : Nat) (t : ValueType) :
    r.Walks count ⟨layers, ValueType.array^[count] t⟩ ⟨layers + count, t⟩ := by
  induction count generalizing layers with
  | zero => exact .refl _
  | succ count ih =>
      rw [Function.iterate_succ_apply']
      have hrest := ih (layers + 1)
      rw [Nat.add_right_comm] at hrest
      exact .step .layer hrest

/-! ## Resolution along a walk -/

/-- A step of a walk takes one off the budget, and the type as a whole stays the same. -/
theorem resolve_of_follows (h : r.Follows x y) (budget : Nat) :
    x.around (r.resolve (budget + 1) x.focus) = y.around (r.resolve budget y.focus) := by
  cases h with
  | hop h =>
      rw [resolve, h]
      rfl
  | layer =>
      rw [resolve, Place.around_succ]
      rfl

theorem resolve_of_walks (h : r.Walks n x y) (budget : Nat) :
    x.around (r.resolve (n + budget) x.focus) = y.around (r.resolve budget y.focus) := by
  induction h with
  | refl x => rw [Nat.zero_add]
  | @step n x y z h _ ih =>
      calc x.around (r.resolve (n + 1 + budget) x.focus)
          = x.around (r.resolve (n + budget + 1) x.focus) := by rw [Nat.add_right_comm]
        _ = y.around (r.resolve (n + budget) y.focus) := resolve_of_follows h _
        _ = z.around (r.resolve budget z.focus) := ih

/-- At the end of a walk nothing is left to resolve. -/
theorem resolve_of_ends (h : r.Ends x) (budget : Nat) : r.resolve budget x.focus = x.focus := by
  obtain ⟨harray, hname⟩ := ends_iff.mp h
  cases budget with
  | zero => rw [resolve]
  | succ budget =>
      cases hfocus : x.focus with
      | primitive kind => rw [resolve] <;> simp
      | boxed kind => rw [resolve] <;> simp
      | named name => rw [resolve, hname name hfocus]
      | array component =>
          rw [hfocus] at harray
          cases harray

/-- A budget that is enough for a walk to its end gives the type at the end. -/
theorem resolve_eq_of_walks {budget : Nat} (h : r.Walks n (.start t) x) (hends : r.Ends x)
    (hle : n ≤ budget) : r.resolve budget t = x.type := by
  obtain ⟨rest, rfl⟩ := Nat.exists_eq_add_of_le hle
  calc r.resolve (n + rest) t
      = x.around (r.resolve rest x.focus) := resolve_of_walks h rest
    _ = x.type := by rw [resolve_of_ends hends, Place.type]

/-- The type at the end of a walk is its own normal form, at no higher cost. -/
theorem resolve_type {budget : Nat} (h : r.Walks n (.start t) x) (hends : r.Ends x)
    (hle : n ≤ budget) : r.resolve budget x.type = x.type := by
  have hlayers : r.Walks x.layers (.start x.type) x := by
    have hwalks := walks_layers r 0 x.layers x.focus
    rwa [Nat.zero_add] at hwalks
  have hfew : x.layers ≤ n := by
    have hcount := h.layers_le
    rwa [Place.layers_start, Nat.zero_add] at hcount
  exact resolve_eq_of_walks hlayers hends (Nat.le_trans hfew hle)

/-- Whatever the registry is, resolution is a walk: it takes all steps of the budget, or
ends before. -/
theorem exists_walks_resolve (r : Registry) (budget : Nat) (x : Place) :
    ∃ n y, n ≤ budget ∧ r.Walks n x y ∧ x.around (r.resolve budget x.focus) = y.type ∧
      (n < budget → r.Ends y) := by
  induction budget generalizing x with
  | zero => exact ⟨0, x, Nat.le_refl 0, .refl x, by rw [resolve, Place.type], fun h => by omega⟩
  | succ budget ih =>
      by_cases hends : r.Ends x
      · exact ⟨0, x, Nat.zero_le _, .refl x, by rw [resolve_of_ends hends, Place.type],
          fun _ => hends⟩
      · obtain ⟨y, hstep⟩ := not_forall_not.mp hends
        obtain ⟨n, z, hle, hwalks, htype, hlast⟩ := ih y
        refine ⟨n + 1, z, by omega, .step hstep hwalks, ?_, fun h => hlast (by omega)⟩
        rw [resolve_of_follows hstep, htype]

/-! ## The normal form -/

/-- Within the limit on steps, every walk to an end gives the normal form of its type. -/
theorem canonical_eq_of_walks (h : r.Walks n (.start t) x) (hends : r.Ends x) (hle : n ≤ 32) :
    r.canonical t = x.type :=
  resolve_eq_of_walks h hends hle

/-- Of an alias one step less remains for what it stands for, and this makes no difference if
it is enough. -/
theorem canonical_alias {name : String} (halias : r.aliases.lookup name = some t)
    (h : r.Walks n (.start t) x) (hends : r.Ends x) (hle : n ≤ 31) :
    r.canonical (.named name) = r.canonical t := by
  have hstep : r.Walks (n + 1) (.start (.named name)) x := .step (.hop halias) h
  rw [canonical_eq_of_walks hstep hends (by omega), canonical_eq_of_walks h hends (by omega)]

theorem canonical_array (h : r.Walks n (.start t) x) (hends : r.Ends x) (hle : n ≤ 31) :
    r.canonical (.array t) = .array (r.canonical t) := by
  calc r.canonical (.array t) = .array (r.resolve 31 t) := rfl
    _ = .array x.type := by rw [resolve_eq_of_walks h hends hle]
    _ = .array (r.canonical t) := by rw [canonical_eq_of_walks h hends (by omega)]

end Registry

/-- A conversion asks only what a type stands for. -/
theorem Op.exists_run_convert_congr (c : Context) (s : State) {t u : ValueType}
    (hentries : s.entries ≠ []) (h : c.registry.canonical t = c.registry.canonical u)
    (explicit : Bool) :
    ∃ after, (Op.convert t explicit).run c s = .ok () after ∧
      (Op.convert u explicit).run c s = .ok () after := by
  obtain ⟨source, rest, hcons⟩ := List.exists_cons_of_ne_nil hentries
  refine ⟨_, Op.run_convert c s hcons t explicit, ?_⟩
  rw [h]
  exact Op.run_convert c s hcons u explicit

/-- A walk has one end and one cost.  If the cost is at most 32, the canonical type is the
type at the end, whose element is no alias, and it is its own canonical type; at one less an
array around the type, and an alias for it, resolve as the type does, and on every stack that
is not empty the alias can stand in its place in every conversion.  Whatever the registry is,
resolution is the end of a walk of at most 32 steps, and breaks off only after all of them. -/
theorem canonical_of_walks (c : Context) :
    (∀ t m n x y, c.registry.Walks m (.start t) x → c.registry.Ends x →
      c.registry.Walks n (.start t) y → c.registry.Ends y → m = n ∧ x = y) ∧
    (∀ t n x, c.registry.Walks n (.start t) x → c.registry.Ends x → n ≤ 32 →
      c.registry.canonical t = x.type ∧
      (x.focus.isArray = false ∧
        ∀ name, x.focus = .named name → c.registry.aliases.lookup name = none) ∧
      c.registry.canonical (c.registry.canonical t) = c.registry.canonical t ∧
      (n ≤ 31 → c.registry.canonical (.array t) = .array (c.registry.canonical t)) ∧
      ∀ name, c.registry.aliases.lookup name = some t → n ≤ 31 → ∀ s : State, s.entries ≠ [] →
        (∃ after, (Op.cast (.named name)).run c s = .ok () after ∧
          (Op.cast t).run c s = .ok () after) ∧
        (∃ after, (Op.coerce (.named name)).run c s = .ok () after ∧
          (Op.coerce t).run c s = .ok () after) ∧
        ∀ v : Variable, v.type = .named name →
          ∃ after, (Op.castToVariable v).run c s = .ok () after ∧
            (Op.castToVariable { v with type := t }).run c s = .ok () after) ∧
    ∀ t, ∃ n x, n ≤ 32 ∧ c.registry.Walks n (.start t) x ∧ c.registry.canonical t = x.type ∧
      (n < 32 → c.registry.Ends x) := by
  refine ⟨?_, ?_, ?_⟩
  · intro t m n x y hx hends hy hends'
    exact hx.unique hends hy hends'
  · intro t n x hwalks hends hle
    have hcanonical := Registry.canonical_eq_of_walks hwalks hends hle
    refine ⟨hcanonical, Registry.ends_iff.mp hends, ?_, ?_, ?_⟩
    · rw [hcanonical]
      exact Registry.resolve_type hwalks hends hle
    · intro hless
      exact Registry.canonical_array hwalks hends hless
    · intro name halias hless s hentries
      have hsame := Registry.canonical_alias halias hwalks hends hless
      refine ⟨Op.exists_run_convert_congr c s hentries hsame false,
        Op.exists_run_convert_congr c s hentries hsame true, ?_⟩
      intro v hv
      unfold Op.castToVariable
      rw [hv]
      exact Op.exists_run_convert_congr c s hentries hsame false
  · intro t
    exact Registry.exists_walks_resolve c.registry 32 (.start t)

/-- A name for arrays of arrays by way of two others, and one that stands for arrays of
itself. -/
def tableContext : Context :=
  { registry := (((Registry.empty.addAlias "Row" (.array (.primitive .double))).addAlias "Table"
      (.array (.named "Row"))).addAlias "Grid" (.named "Table")).addAlias "Nest"
      (.array (.named "Nest"))
    settings := .standard
    body := ⟨"", "", ""⟩ }

/-- From `Table` two aliases and two layers lead to `double`, and no more than these; `Grid` is
one alias further and casts as `Table` does.  The name for arrays of itself is followed for all
32 steps, through 16 layers. -/
theorem canonical_of_walks_table :
    (∀ n y, tableContext.registry.Walks n (.start (.named "Table")) y →
        tableContext.registry.Ends y → 4 = n) ∧
      tableContext.registry.canonical (.named "Table") = .array (.array (.primitive .double)) ∧
      tableContext.registry.canonical (.array (.named "Table")) =
        .array (.array (.array (.primitive .double))) ∧
      (∃ after, (Op.cast (.named "Grid")).run tableContext
          (State.initial.withEntries [.object]) = .ok () after ∧
        (Op.cast (.named "Table")).run tableContext
          (State.initial.withEntries [.object]) = .ok () after) ∧
      tableContext.registry.canonical (.named "Nest") = ValueType.array^[16] (.named "Nest") := by
  have hwalk : tableContext.registry.Walks 4 (.start (.named "Table")) ⟨2, .primitive .double⟩ :=
    .step (.hop rfl) (.step .layer (.step (.hop rfl) (.step .layer (.refl _))))
  have hends : tableContext.registry.Ends ⟨2, .primitive .double⟩ :=
    Registry.ends_iff.mpr ⟨rfl, fun name h => by cases h⟩
  obtain ⟨hunique, hnormal, -⟩ := canonical_of_walks tableContext
  obtain ⟨htable, -, -, harray, halias⟩ := hnormal _ _ _ hwalk hends (by decide)
  have harrays := harray (by decide)
  rw [htable] at harrays
  have hcast := (halias "Grid" rfl (by decide) (State.initial.withEntries [.object])
    (List.cons_ne_nil _ _)).1
  refine ⟨?_, htable, harrays, hcast, rfl⟩
  intro n y hy hends'
  exact (hunique _ _ _ _ _ hwalk hends hy hends').1

end Lockstep
