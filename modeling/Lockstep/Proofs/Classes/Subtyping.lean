import Lockstep.Proofs.Classes.Reachability

/-!
# The rules of subtyping

What `isSubtype` answers, as rules (`Registry.Below`): every type is below itself, every
reference below the root, arrays of references are below each other as their components
are, every array is below two interfaces, and between types that are no arrays it is a
matter of steps to direct supertypes.  `isSubtype_iff` says that the answers and the rules
are the same.

Subtyping is transitive exactly if what is above the two interfaces of arrays is above every
array (`Registry.ClosedArrayParents`, `isSubtype_trans_iff`): with another class above one of
them, an array is below the interface and not below that class.  It is enough that nothing
but the root is directly above the two (`Registry.BareArrayParents`, `isSubtype_trans`).
-/

namespace Lockstep

theorem ValueType.carrier_eq_reference {t : ValueType} (h : t.isPrimitive = false) :
    t.carrier = .reference := by
  cases t with
  | primitive kind => cases h
  | _ => rfl

theorem ValueType.isPrimitive_box (t : ValueType) : t.box.isPrimitive = false := by
  cases t <;> rfl

theorem ValueType.carrier_box (t : ValueType) : t.box.carrier = .reference :=
  carrier_eq_reference t.isPrimitive_box

namespace Registry

variable {r : Registry} {a b c : ValueType}

/-- A value of one type can be used as another with no instruction. -/
inductive Below (r : Registry) : ValueType → ValueType → Prop
  | refl (t : ValueType) : Below r t t
  | object {t : ValueType} (ht : t.isPrimitive = false) : Below r t .object
  | array {t u : ValueType} (ht : t.isPrimitive = false) (hu : u.isPrimitive = false)
      (h : Below r t u) : Below r (.array t) (.array u)
  | cloneable (t : ValueType) : Below r (.array t) (.named ClassName.cloneable)
  | serializable (t : ValueType) : Below r (.array t) (.named ClassName.serializable)
  | steps {t u : ValueType} (ht : t.isPrimitive = false ∧ t.isArray = false)
      (hu : u.isPrimitive = false ∧ u.isArray = false)
      (h : Relation.TransGen r.Extends t u) : Below r t u

/-! ## The answers follow the rules -/

/-- The answer for two types that are not both arrays. -/
theorem isSubtype_of_isArray_eq_false (h : (a.isArray && b.isArray) = false) :
    r.isSubtype a b =
      if a = b then true
      else if a.isPrimitive || b.isPrimitive then false
      else if b.isObject then true
      else if a.isArray then
        b.isNamed ClassName.cloneable || b.isNamed ClassName.serializable
      else if b.isArray then false
      else r.isAbove b a := by
  cases a with
  | array t =>
      cases b with
      | array u => cases h
      | _ => rfl
  | _ => cases b <;> rfl

theorem below_of_isSubtype (h : r.isSubtype a b = true) : r.Below a b := by
  fun_induction isSubtype r a b with
  | case1 a b ih =>
      simp only [Bool.or_eq_true, decide_eq_true_eq, Bool.and_eq_true, Bool.not_eq_true'] at h
      rcases h with heq | ⟨⟨ha, hb⟩, hsub⟩
      · rw [heq]
        exact .refl _
      · exact .array ha hb (ih hsub)
  | case2 => exact .refl _
  | case3 => cases h
  | case4 a b hshape hne hprimitive hobject =>
      have hb : b = .object := of_decide_eq_true hobject
      rw [hb]
      exact .object (by simp_all)
  | case5 a b hshape hne hprimitive hobject harray =>
      obtain ⟨t, rfl⟩ : ∃ t, a = .array t := by
        cases a with
        | array t => exact ⟨t, rfl⟩
        | _ => cases harray
      simp only [Bool.or_eq_true, ValueType.isNamed, decide_eq_true_eq] at h
      rcases h with rfl | rfl
      · exact .cloneable t
      · exact .serializable t
  | case6 => cases h
  | case7 a b hshape hne hprimitive hobject harray harray' =>
      exact .steps (by simp_all) (by simp_all) (isAbove_iff.mp h)

theorem isSubtype_of_below (h : r.Below a b) : r.isSubtype a b = true := by
  induction h with
  | refl t =>
      cases t with
      | array t => simp [isSubtype]
      | _ => exact if_pos rfl
  | @object t ht =>
      rw [isSubtype_of_isArray_eq_false (Bool.and_false _), ht]
      simp [ValueType.isObject, ValueType.isNamed, ValueType.object, ValueType.isPrimitive,
        ValueType.prim?]
  | array ht hu h ih => simp [isSubtype, ht, hu, ih]
  | cloneable t => rfl
  | serializable t => rfl
  | @steps t u ht hu h =>
      rw [isSubtype_of_isArray_eq_false (by rw [ht.2, Bool.false_and]), ht.1, ht.2, hu.1, hu.2,
        isAbove_iff.mpr h]
      simp

/-- The answers are the rules. -/
theorem isSubtype_iff : r.isSubtype a b = true ↔ r.Below a b :=
  ⟨below_of_isSubtype, isSubtype_of_below⟩

/-! ## Primitives -/

/-- Subtyping does not lead from or to a primitive. -/
theorem not_isPrimitive_of_isSubtype (h : r.isSubtype a b = true) (hne : a ≠ b) :
    a.isPrimitive = false ∧ b.isPrimitive = false := by
  cases below_of_isSubtype h with
  | refl t => exact absurd rfl hne
  | object ht => exact ⟨ht, rfl⟩
  | array ht hu h => exact ⟨rfl, rfl⟩
  | cloneable t => exact ⟨rfl, rfl⟩
  | serializable t => exact ⟨rfl, rfl⟩
  | steps ht hu h => exact ⟨ht.1, hu.1⟩

/-- A type is as primitive as what is above it. -/
theorem isPrimitive_eq_of_isSubtype (h : r.isSubtype a b = true) :
    a.isPrimitive = b.isPrimitive := by
  by_cases heq : a = b
  · rw [heq]
  · obtain ⟨ha, hb⟩ := not_isPrimitive_of_isSubtype h heq
    rw [ha, hb]

theorem eq_of_isSubtype_primitive {kind : Prim} (h : r.isSubtype a (.primitive kind) = true) :
    a = .primitive kind := by
  by_cases heq : a = .primitive kind
  · exact heq
  · cases (not_isPrimitive_of_isSubtype h heq).2

theorem carrier_eq_of_isSubtype (h : r.isSubtype a b = true) : a.carrier = b.carrier := by
  by_cases heq : a = b
  · rw [heq]
  · obtain ⟨ha, hb⟩ := not_isPrimitive_of_isSubtype h heq
    rw [ValueType.carrier_eq_reference ha, ValueType.carrier_eq_reference hb]

/-- Boxing keeps the order. -/
theorem isSubtype_box (h : r.isSubtype a b = true) : r.isSubtype a.box b.box = true := by
  cases b with
  | primitive kind =>
      rw [eq_of_isSubtype_primitive h]
      exact isSubtype_of_below (.refl _)
  | _ =>
      have ha := isPrimitive_eq_of_isSubtype h
      cases a with
      | primitive kind => cases ha
      | _ => exact h

/-! ## Compatible types -/

/-- What is compatible is a subtype: the looser rule for the components of arrays accepts no
more than the rules do. -/
theorem isSubtype_of_isCompatible (h : r.isCompatible a b = true) : r.isSubtype a b = true := by
  fun_induction isCompatible r a b with
  | case1 a b ih =>
      simp only [Bool.or_eq_true, decide_eq_true_eq] at h
      rcases h with (heq | hcomponents) | hsub
      · rw [heq]
        exact isSubtype_of_below (.refl _)
      · have hsub := ih hcomponents
        by_cases heq : a = b
        · rw [heq]
          exact isSubtype_of_below (.refl _)
        · obtain ⟨ha, hb⟩ := not_isPrimitive_of_isSubtype hsub heq
          exact isSubtype_of_below (.array ha hb (below_of_isSubtype hsub))
      · exact hsub
  | case2 a b hshape =>
      simp only [Bool.or_eq_true, decide_eq_true_eq, Bool.and_eq_true] at h
      rcases h with heq | ⟨-, hsub⟩
      · rw [heq]
        exact isSubtype_of_below (.refl _)
      · exact hsub

/-- A subtype is compatible. -/
theorem isCompatible_of_isSubtype (h : r.isSubtype a b = true) : r.isCompatible a b = true := by
  by_cases heq : a = b
  · subst heq
    cases a <;> simp [isCompatible]
  · obtain ⟨ha, hb⟩ := not_isPrimitive_of_isSubtype h heq
    unfold isCompatible
    split
    · rw [h, Bool.or_true]
    · rw [ha, hb, h]
      exact Bool.or_true _

/-! ## Transitivity -/

/-- Nothing but the root is directly above the two interfaces of arrays. -/
def BareArrayParents (r : Registry) : Prop :=
  (∀ t, r.Extends (.named ClassName.cloneable) t → t = .object) ∧
    ∀ t, r.Extends (.named ClassName.serializable) t → t = .object

/-- Nothing is above the root. -/
theorem not_transGen_object : ¬ Relation.TransGen r.Extends .object c := by
  intro h
  obtain ⟨t, hstep, -⟩ := Relation.TransGen.head'_iff.mp h
  unfold Extends at hstep
  rw [supertypes_object] at hstep
  cases hstep

theorem Below.eq_object (h : r.Below .object c) : c = .object := by
  cases h with
  | refl => rfl
  | object => rfl
  | steps ht hu h => exact absurd h not_transGen_object

/-- Only the root is above a type that has no other direct supertype. -/
theorem Below.eq_or_eq_object {name : String}
    (hbare : ∀ t, r.Extends (.named name) t → t = .object) (h : r.Below (.named name) c) :
    c = .named name ∨ c = .object := by
  cases h with
  | refl => exact .inl rfl
  | object => exact .inr rfl
  | steps ht hu h =>
      obtain ⟨t, hstep, hpath⟩ := Relation.TransGen.head'_iff.mp h
      rw [hbare t hstep] at hpath
      rcases Relation.reflTransGen_iff_eq_or_transGen.mp hpath with rfl | habove
      · exact .inr rfl
      · exact absurd habove not_transGen_object

/-- Whatever is above an interface of arrays is above every array: it is one of the two, or
the root. -/
def ClosedArrayParents (r : Registry) : Prop :=
  ∀ t, r.Below (.named ClassName.cloneable) t ∨ r.Below (.named ClassName.serializable) t →
    t ∈ arrayParents

theorem BareArrayParents.closed (h : r.BareArrayParents) : r.ClosedArrayParents := by
  rintro t (habove | habove)
  · rcases habove.eq_or_eq_object h.1 with rfl | rfl <;> simp [arrayParents]
  · rcases habove.eq_or_eq_object h.2 with rfl | rfl <;> simp [arrayParents]

theorem below_of_mem_arrayParents (t : ValueType) (h : b ∈ arrayParents) :
    r.Below (.array t) b := by
  simp only [arrayParents, List.mem_cons, List.not_mem_nil, or_false] at h
  rcases h with rfl | rfl | rfl
  · exact .object rfl
  · exact .cloneable t
  · exact .serializable t

/-- What is above an array is an array, or one of what is above every array. -/
theorem Below.array_or_mem_arrayParents {t : ValueType} (h : r.Below (.array t) b) :
    (∃ u, b = .array u) ∨ b ∈ arrayParents := by
  cases h with
  | refl => exact .inl ⟨t, rfl⟩
  | object => exact .inr (by simp [arrayParents])
  | array => exact .inl ⟨_, rfl⟩
  | cloneable => exact .inr (by simp [arrayParents])
  | serializable => exact .inr (by simp [arrayParents])
  | steps ht => cases ht.2

/-- No array is above a class. -/
theorem not_below_named_array {name : String} {t : ValueType} :
    ¬ r.Below (.named name) (.array t) := by
  intro h
  cases h with
  | steps ht hu => cases hu.2

theorem Below.trans (hclosed : r.ClosedArrayParents) (hab : r.Below a b) (hbc : r.Below b c) :
    r.Below a c := by
  induction hab generalizing c with
  | refl t => exact hbc
  | object ht =>
      rw [hbc.eq_object]
      exact .object ht
  | array ht hu h ih =>
      cases hbc with
      | refl => exact .array ht hu h
      | object => exact .object rfl
      | array hu' hv h' => exact .array ht hv (ih h')
      | cloneable => exact .cloneable _
      | serializable => exact .serializable _
      | steps hu' hv h' => cases hu'.2
  | cloneable t => exact below_of_mem_arrayParents t (hclosed c (.inl hbc))
  | serializable t => exact below_of_mem_arrayParents t (hclosed c (.inr hbc))
  | steps ht hu h =>
      cases hbc with
      | refl => exact .steps ht hu h
      | object => exact .object ht.1
      | array => cases hu.2
      | cloneable => cases hu.2
      | serializable => cases hu.2
      | steps hu' hv h' => exact .steps ht hv (h.trans h')

theorem isSubtype_trans (hbare : r.BareArrayParents) (hab : r.isSubtype a b = true)
    (hbc : r.isSubtype b c = true) : r.isSubtype a c = true :=
  isSubtype_of_below ((below_of_isSubtype hab).trans hbare.closed (below_of_isSubtype hbc))

/-- Subtyping is transitive exactly if nothing else is above the interfaces of arrays than
what is above every array. -/
theorem isSubtype_trans_iff :
    (∀ a b c, r.isSubtype a b = true → r.isSubtype b c = true → r.isSubtype a c = true) ↔
      r.ClosedArrayParents := by
  constructor
  · intro htrans t habove
    -- an array is below the interface, and so below the type
    have harray : r.Below (.array .object) t := by
      rcases habove with habove | habove
      · exact below_of_isSubtype
          (htrans _ _ t (isSubtype_of_below (.cloneable .object)) (isSubtype_of_below habove))
      · exact below_of_isSubtype
          (htrans _ _ t (isSubtype_of_below (.serializable .object)) (isSubtype_of_below habove))
    rcases harray.array_or_mem_arrayParents with ⟨u, rfl⟩ | hmem
    · rcases habove with habove | habove <;> exact absurd habove not_below_named_array
    · exact hmem
  · intro hclosed a b c hab hbc
    exact isSubtype_of_below ((below_of_isSubtype hab).trans hclosed (below_of_isSubtype hbc))

/-- Every reference can be used as an object. -/
theorem isSubtype_object (h : a.isPrimitive = false) : r.isSubtype a .object = true :=
  isSubtype_of_below (.object h)

theorem isSubtype_self (a : ValueType) : r.isSubtype a a = true :=
  isSubtype_of_below (.refl a)

end Registry

end Lockstep
