import Mathlib.Logic.Relation
import Lockstep.Classes.Subtype

/-!
# What the search for a supertype finds

The search goes through the supertypes of a type, those of these, and so on, and takes each
type that it meets at most once.  It finds a type exactly if that type can be reached by
steps from a type to a direct supertype (`Registry.isAbove_iff`), in every registry, also
one with cycles.

That it finds nothing else is an induction along the search.  That it misses nothing rests
on an invariant of what it has visited so far (`Registry.Explored`): no visited type is the
goal, and what is directly above a visited type is visited or in the queue.  When the queue
is empty, the visited types are closed under steps.
-/

namespace Lockstep.Registry

variable {r : Registry} {t u goal : ValueType} {unvisited queue : List ValueType}

/-- A type is a direct supertype of another. -/
def Extends (r : Registry) (t u : ValueType) : Prop := u ∈ r.supertypes t

/-! ## Direct supertypes -/

theorem supertypes_object (r : Registry) : r.supertypes .object = [] := by
  simp [supertypes, ValueType.isObject, ValueType.isNamed, ValueType.object]

theorem mem_mentioned_of_info? {info : ClassInfo} (hinfo : r.info? t = some info)
    (h : u ∈ info.parents) : u ∈ r.mentioned := by
  obtain ⟨name, hlookup⟩ : ∃ name, r.classes.lookup name = some info := by
    cases t with
    | boxed kind => exact ⟨_, hinfo⟩
    | named name => exact ⟨_, hinfo⟩
    | primitive kind => cases hinfo
    | array component => cases hinfo
  obtain ⟨before, rest, hclasses, -⟩ := List.lookup_eq_some_iff.mp hlookup
  apply List.mem_append_right
  rw [List.mem_flatMap]
  refine ⟨(name, info), ?_, h⟩
  rw [hclasses]
  exact List.mem_append_right _ List.mem_cons_self

/-- Whatever is above a type is mentioned in the registry. -/
theorem Extends.mem_mentioned (h : r.Extends t u) : u ∈ r.mentioned := by
  unfold Extends supertypes at h
  split at h
  · cases h
  · split at h
    · next info hinfo => exact mem_mentioned_of_info? hinfo h
    · split at h
      · exact List.mem_append_left _ h
      · rw [List.mem_singleton.mp h]
        exact List.mem_append_left _ List.mem_cons_self

/-! ## What is found is there -/

theorem exists_of_search (h : r.search goal unvisited queue = true) :
    ∃ t ∈ queue, Relation.ReflTransGen r.Extends t goal := by
  fun_induction search r goal unvisited queue with
  | case1 => cases h
  | case2 unvisited queue => exact ⟨goal, List.mem_cons_self, .refl⟩
  | case3 unvisited t queue hne hmem ih =>
      obtain ⟨u, hu, hpath⟩ := ih h
      rcases List.mem_append.mp hu with hu | hu
      · exact ⟨u, List.mem_cons_of_mem _ hu, hpath⟩
      · exact ⟨t, List.mem_cons_self, .head hu hpath⟩
  | case4 unvisited t queue hne hmem ih =>
      obtain ⟨u, hu, hpath⟩ := ih h
      exact ⟨u, List.mem_cons_of_mem _ hu, hpath⟩

/-! ## What is there is found -/

/-- What a search has got to: everything in the queue is mentioned, no type that was visited
is the goal, and the direct supertypes of those are visited too, or queued. -/
structure Explored (r : Registry) (goal : ValueType) (unvisited queue : List ValueType) :
    Prop where
  mentioned : ∀ t ∈ queue, t ∈ r.mentioned
  visited : ∀ t ∈ r.mentioned, t ∉ unvisited →
    t ≠ goal ∧ ∀ u, r.Extends t u → u ∉ unvisited ∨ u ∈ queue

namespace Explored

/-- A type that is visited leaves its supertypes in the queue. -/
theorem visit (h : r.Explored goal unvisited (t :: queue)) (hne : t ≠ goal) :
    r.Explored goal (without t unvisited) (queue ++ r.supertypes t) := by
  have hgone : ∀ u, u ∉ without t unvisited ↔ u ∉ unvisited ∨ u = t := by
    intro u
    simp only [without, List.mem_filter, decide_eq_true_eq, not_and, Decidable.not_not]
    exact Decidable.imp_iff_not_or
  constructor
  · intro u hu
    rcases List.mem_append.mp hu with hu | hu
    · exact h.mentioned u (List.mem_cons_of_mem _ hu)
    · exact Extends.mem_mentioned hu
  · intro u hu hunvisited
    by_cases heq : u = t
    · subst heq
      exact ⟨hne, fun x hx => .inr (List.mem_append_right _ hx)⟩
    · obtain ⟨hgoal, habove⟩ :=
        h.visited u hu (((hgone u).mp hunvisited).resolve_right heq)
      refine ⟨hgoal, fun x hx => ?_⟩
      rcases habove x hx with hvisited | hqueued
      · exact .inl ((hgone x).mpr (.inl hvisited))
      · rcases List.mem_cons.mp hqueued with hself | hqueued
        · exact .inl ((hgone x).mpr (.inr hself))
        · exact .inr (List.mem_append_left _ hqueued)

/-- A type that was visited before can be dropped from the queue. -/
theorem skip (h : r.Explored goal unvisited (t :: queue)) (hvisited : t ∉ unvisited) :
    r.Explored goal unvisited queue := by
  constructor
  · intro u hu
    exact h.mentioned u (List.mem_cons_of_mem _ hu)
  · intro u hu hunvisited
    obtain ⟨hgoal, habove⟩ := h.visited u hu hunvisited
    refine ⟨hgoal, fun x hx => ?_⟩
    rcases habove x hx with hx' | hqueued
    · exact .inl hx'
    · rcases List.mem_cons.mp hqueued with rfl | hqueued
      · exact .inl hvisited
      · exact .inr hqueued

/-- With nothing left in the queue, no steps lead from the visited types to the goal. -/
theorem not_reaches (h : r.Explored goal unvisited []) (hmentioned : t ∈ r.mentioned)
    (hvisited : t ∉ unvisited) : ¬ Relation.ReflTransGen r.Extends t goal := by
  intro hpath
  induction hpath using Relation.ReflTransGen.head_induction_on with
  | refl => exact (h.visited goal hmentioned hvisited).1 rfl
  | @head t u hstep hpath ih =>
      rcases (h.visited t hmentioned hvisited).2 u hstep with hu | hu
      · exact ih hstep.mem_mentioned hu
      · cases hu

/-- A search that fails has gone through everything above what was queued or visited. -/
theorem not_reaches_of_search (h : r.Explored goal unvisited queue)
    (hfails : r.search goal unvisited queue = false) (hmentioned : t ∈ r.mentioned)
    (ht : t ∉ unvisited ∨ t ∈ queue) : ¬ Relation.ReflTransGen r.Extends t goal := by
  fun_induction search r goal unvisited queue generalizing t with
  | case1 =>
      rcases ht with ht | ht
      · exact h.not_reaches hmentioned ht
      · cases ht
  | case2 => cases hfails
  | case3 unvisited next queue hne hmem ih =>
      have hnext : next ∉ without next unvisited := by
        simp [without]
      apply ih (h.visit hne) hfails hmentioned
      rcases ht with ht | ht
      · exact .inl fun hleft => ht (List.mem_filter.mp hleft).1
      · rcases List.mem_cons.mp ht with rfl | ht
        · exact .inl hnext
        · exact .inr (List.mem_append_left _ ht)
  | case4 unvisited next queue hne hmem ih =>
      apply ih (h.skip hmem) hfails hmentioned
      rcases ht with ht | ht
      · exact .inl ht
      · rcases List.mem_cons.mp ht with rfl | ht
        · exact .inl hmem
        · exact .inr ht

end Explored

/-- The search starts with nothing visited. -/
theorem explored_supertypes (r : Registry) (t goal : ValueType) :
    r.Explored goal r.mentioned (r.supertypes t) :=
  ⟨fun _ hu => Extends.mem_mentioned hu, fun _ hu hvisited => absurd hu hvisited⟩

/-- The search decides whether steps to direct supertypes lead from one type to another. -/
theorem isAbove_iff {sup sub : ValueType} :
    r.isAbove sup sub = true ↔ Relation.TransGen r.Extends sub sup := by
  rw [Relation.TransGen.head'_iff]
  constructor
  · intro h
    exact exists_of_search h
  · rintro ⟨t, hstep, hpath⟩
    cases hsearch : r.isAbove sup sub with
    | true => rfl
    | false =>
        have hnone := (r.explored_supertypes sub sup).not_reaches_of_search hsearch
          (Extends.mem_mentioned hstep) (.inr hstep)
        exact absurd hpath hnone

end Lockstep.Registry
