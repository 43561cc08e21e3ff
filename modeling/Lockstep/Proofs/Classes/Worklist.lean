import Lockstep.Proofs.Classes.Subtyping

/-!
# The loop that looks for a supertype

The search is told which types it may still visit, and ends because these get fewer.  A loop
knows no such list: it has a queue, in which a type can stand more than once and which can
grow, and it remembers what it has seen.  `Registry.Searches` is that loop.  Nothing in it
gets smaller by itself, and in a registry with cycles it ends only because whatever is queued
is mentioned in a declaration.

The search is the loop, step by step (`searches_search`): of the types that are mentioned,
those that it may still visit are those that the loop has not seen.  So the loop ends, with
the answer of the search.  What that answer means for two types that are no arrays is
`isSubtype_iff_reaches`.
-/

namespace Lockstep.Registry

variable {r : Registry} {goal : ValueType} {seen unvisited queue : List ValueType}

/-- The loop ends with an answer, given what it has seen and what is queued: it takes the
first of the queue, and if this is not the goal and was not seen before, it queues what is
directly above it. -/
inductive Searches (r : Registry) (goal : ValueType) :
    List ValueType → List ValueType → Bool → Prop
  | exhausted (seen : List ValueType) : Searches r goal seen [] false
  | found (seen queue : List ValueType) : Searches r goal seen (goal :: queue) true
  | fresh {seen queue : List ValueType} {t : ValueType} {answer : Bool} (hne : t ≠ goal)
      (hseen : t ∉ seen) (h : Searches r goal (t :: seen) (queue ++ r.supertypes t) answer) :
      Searches r goal seen (t :: queue) answer
  | repeated {seen queue : List ValueType} {t : ValueType} {answer : Bool} (hne : t ≠ goal)
      (hseen : t ∈ seen) (h : Searches r goal seen queue answer) :
      Searches r goal seen (t :: queue) answer

/-- The loop ends with one answer only. -/
theorem Searches.unique {answer answer' : Bool} (h : r.Searches goal seen queue answer)
    (h' : r.Searches goal seen queue answer') : answer = answer' := by
  induction h with
  | exhausted =>
      cases h'
      rfl
  | found =>
      cases h' with
      | found => rfl
      | fresh hne => exact absurd rfl hne
      | repeated hne => exact absurd rfl hne
  | fresh hne hseen _ ih =>
      cases h' with
      | found => exact absurd rfl hne
      | fresh _ _ h' => exact ih h'
      | repeated _ hseen' => exact absurd hseen' hseen
  | repeated hne hseen _ ih =>
      cases h' with
      | found => exact absurd rfl hne
      | fresh _ hseen' => exact absurd hseen hseen'
      | repeated _ _ h' => exact ih h'

/-- The search ends as the loop does, as long as everything queued is mentioned, and what is
mentioned is still to be visited exactly if it was not seen. -/
theorem searches_search (hqueue : ∀ t ∈ queue, t ∈ r.mentioned)
    (hunvisited : ∀ t ∈ r.mentioned, t ∈ unvisited ↔ t ∉ seen) :
    r.Searches goal seen queue (r.search goal unvisited queue) := by
  fun_induction search r goal unvisited queue generalizing seen with
  | case1 => exact .exhausted seen
  | case2 unvisited queue => exact .found seen queue
  | case3 unvisited t queue hne hmem ih =>
      rw [List.forall_mem_cons] at hqueue
      refine .fresh hne ((hunvisited t hqueue.1).mp hmem) (ih ?_ ?_)
      · intro u hu
        rcases List.mem_append.mp hu with hu | hu
        · exact hqueue.2 u hu
        · exact Extends.mem_mentioned hu
      · intro u hu
        simp only [without, List.mem_filter, decide_eq_true_eq, hunvisited u hu, List.mem_cons,
          not_or, and_comm]
  | case4 unvisited t queue hne hmem ih =>
      rw [List.forall_mem_cons] at hqueue
      have hseen : t ∈ seen :=
        Decidable.not_not.mp fun hnot => hmem ((hunvisited t hqueue.1).mpr hnot)
      exact .repeated hne hseen (ih hqueue.2 hunvisited)

/-- The loop starts with what is directly above a type, and nothing seen. -/
theorem searches_isAbove (r : Registry) (sub sup : ValueType) :
    r.Searches sup [] (r.supertypes sub) (r.isAbove sup sub) := by
  apply searches_search
  · intro t ht
    exact Extends.mem_mentioned ht
  · intro t ht
    simp [ht]

/-- Between types that are neither primitives nor arrays, in every registry, the loop ends
with one answer, and a type is a subtype of another exactly if the two are equal, or the
other is the root, or one or more steps to direct supertypes lead to it. -/
theorem isSubtype_iff_reaches {sub sup : ValueType}
    (hsub : sub.isPrimitive = false ∧ sub.isArray = false)
    (hsup : sup.isPrimitive = false ∧ sup.isArray = false) :
    (∀ answer, r.Searches sup [] (r.supertypes sub) answer ↔ answer = r.isAbove sup sub) ∧
      (r.isSubtype sub sup = true ↔
        sub = sup ∨ sup = .object ∨ Relation.TransGen r.Extends sub sup) := by
  refine ⟨fun answer => ⟨?_, ?_⟩, ⟨?_, ?_⟩⟩
  · intro h
    exact h.unique (searches_isAbove r sub sup)
  · rintro rfl
    exact searches_isAbove r sub sup
  · intro h
    cases below_of_isSubtype h with
    | refl => exact .inl rfl
    | object => exact .inr (.inl rfl)
    | array => cases hsub.2
    | cloneable => cases hsub.2
    | serializable => cases hsub.2
    | steps _ _ hsteps => exact .inr (.inr hsteps)
  · rintro (rfl | rfl | hsteps)
    · exact isSubtype_of_below (.refl _)
    · exact isSubtype_of_below (.object hsub.1)
    · exact isSubtype_of_below (.steps hsub hsup hsteps)

/-- Two classes each above the other, and a primitive above one of them. -/
def cyclicRegistry : Registry :=
  (empty.declare "A" ⟨.ordinary, some (.named "B"), []⟩).declare "B"
    ⟨.interface, some (.named "A"), [.primitive .int]⟩

/-- On a cycle the loop ends: a class on it is found, and a class that is not is missed. -/
theorem isSubtype_iff_reaches_cycle :
    cyclicRegistry.isSubtype (.named "A") (.named "B") = true ∧
      cyclicRegistry.isAbove (.named "C") (.named "A") = false := by
  have hplain : ∀ name : String,
      (ValueType.named name).isPrimitive = false ∧ (ValueType.named name).isArray = false :=
    fun _ => ⟨rfl, rfl⟩
  have hstep : cyclicRegistry.Extends (.named "A") (.named "B") := List.mem_cons_self
  have hfound := (isSubtype_iff_reaches (r := cyclicRegistry) (hplain "A") (hplain "B")).2
  -- the second time that `B` is queued it is passed over
  have hloop : cyclicRegistry.Searches (.named "C") [] (cyclicRegistry.supertypes (.named "A"))
      false :=
    .fresh (t := .named "B") (by decide) (by decide) <|
      .fresh (t := .named "A") (by decide) (by decide) <|
        .fresh (t := .primitive .int) (by decide) (by decide) <|
          .repeated (t := .named "B") (by decide) (by decide) (.exhausted _)
  have hmissed := (isSubtype_iff_reaches (r := cyclicRegistry) (hplain "A") (hplain "C")).1 false
  exact ⟨hfound.mpr (.inr (.inr (.single hstep))), (hmissed.mp hloop).symm⟩

end Lockstep.Registry
