import Lockstep.Proofs.Classes.Subtyping
import Lockstep.Trace.Basic

/-!
# Subtyping as an order

Wherever nothing but the root is directly above the two interfaces of arrays, subtyping is a
preorder, and it never leads from a primitive to another type or back
(`Registry.isSubtype_preorder`).  The platform is such a registry, and so is every registry
that comes from it by declaring other classes, whatever these extend, and by adding aliases
(`Trace.bareArrayParents_registry`).

In every registry without exception, two types are compatible without a conversion exactly
if one is a subtype of the other (`Registry.isCompatible_eq_isSubtype`).  The check for
compatible types goes through the components of arrays without asking whether they are
primitives.  It accepts no more by that: what is compatible below an array is either equal,
or a subtype, and then no primitive.
-/

namespace Lockstep

/-- Every reference takes one slot. -/
theorem ValueType.width_eq_one {t : ValueType} (h : t.isPrimitive = false) : t.width = .one := by
  cases t with
  | primitive kind => cases h
  | _ => rfl

namespace Registry

variable {r : Registry}

/-! ## Registries with nothing else above the interfaces of arrays -/

/-- A declaration hides none with another name. -/
theorem lookup_declare_of_ne {name other : String} (h : other ≠ name) (info : ClassInfo) :
    (r.declare name info).classes.lookup other = r.classes.lookup other := by
  show List.lookup other ((name, info) :: r.classes) = r.classes.lookup other
  rw [List.lookup_cons, beq_false_of_ne h]

/-- A declaration changes the direct supertypes of no class with another name. -/
theorem supertypes_declare_of_ne {name other : String} (h : other ≠ name) (info : ClassInfo) :
    (r.declare name info).supertypes (.named other) = r.supertypes (.named other) := by
  have hinfo : (r.declare name info).info? (.named other) = r.info? (.named other) :=
    lookup_declare_of_ne h info
  rw [supertypes, supertypes, hinfo]

theorem BareArrayParents.declare (hbare : r.BareArrayParents) {name : String} (info : ClassInfo)
    (hname : name ≠ ClassName.cloneable ∧ name ≠ ClassName.serializable) :
    (r.declare name info).BareArrayParents := by
  constructor
  · intro t habove
    unfold Extends at habove
    rw [supertypes_declare_of_ne hname.1.symm] at habove
    exact hbare.1 t habove
  · intro t habove
    unfold Extends at habove
    rw [supertypes_declare_of_ne hname.2.symm] at habove
    exact hbare.2 t habove

theorem BareArrayParents.addAlias (hbare : r.BareArrayParents) (name : String)
    (target : ValueType) : (r.addAlias name target).BareArrayParents := hbare

theorem bareArrayParents_platform : platform.BareArrayParents := by
  have hcloneable : platform.supertypes (.named ClassName.cloneable) = [.object] := by decide
  have hserializable : platform.supertypes (.named ClassName.serializable) = [.object] := by decide
  constructor
  · intro t habove
    unfold Extends at habove
    rw [hcloneable] at habove
    exact List.mem_singleton.mp habove
  · intro t habove
    unfold Extends at habove
    rw [hserializable] at habove
    exact List.mem_singleton.mp habove

end Registry

/-- A trace that declares neither of the two interfaces anew leaves them as the platform has
them. -/
theorem Trace.bareArrayParents_registry {t : Trace}
    (h : ∀ d ∈ t.classes, d.name ≠ ClassName.cloneable ∧ d.name ≠ ClassName.serializable) :
    t.registry.BareArrayParents := by
  have hclasses : (t.classes.foldl (fun r d => r.declare d.name d.info)
      Registry.platform).BareArrayParents := by
    apply List.foldlRecOn t.classes
    · exact Registry.bareArrayParents_platform
    · intro r hbare d hd
      exact hbare.declare d.info (h d hd)
  unfold registry
  apply List.foldlRecOn t.aliases.entries
  · exact hclasses
  · intro r hbare entry _
    exact hbare.addAlias entry.1 entry.2

namespace Registry

variable {r : Registry}

/-! ## The preorder -/

/-- Subtyping is reflexive and transitive, and relates no primitive to another type, so that
two related types have the same width. -/
theorem isSubtype_preorder (hbare : r.BareArrayParents) :
    (∀ a, r.isSubtype a a = true) ∧
      (∀ a b c, r.isSubtype a b = true → r.isSubtype b c = true → r.isSubtype a c = true) ∧
      ∀ a b, r.isSubtype a b = true → a ≠ b →
        a.isPrimitive = false ∧ b.isPrimitive = false ∧ a.width = b.width := by
  refine ⟨isSubtype_self, ?_, ?_⟩
  · intro a b c hab hbc
    exact isSubtype_trans hbare hab hbc
  · intro a b hab hne
    obtain ⟨ha, hb⟩ := not_isPrimitive_of_isSubtype hab hne
    refine ⟨ha, hb, ?_⟩
    calc a.width = .one := ValueType.width_eq_one ha
      _ = b.width := (ValueType.width_eq_one hb).symm

/-- Two classes that extend each other; the second is a list, and an alias names its arrays. -/
def mutualTrace : Trace :=
  { source := ""
    className := ""
    callable := ""
    classes := [⟨"A", .ordinary, some (.named "B"), []⟩,
      ⟨"B", .ordinary, some (.named "A"), [.named "java.util.List"]⟩]
    aliases := .ofList [("Bs", .array (.named "B"))]
    steps := [] }

/-- From `A[][]` by way of `B[][]` to lists, and on to the interfaces of arrays. -/
theorem isSubtype_preorder_mutual :
    mutualTrace.registry.BareArrayParents ∧
      mutualTrace.registry.isSubtype (.array (.array (.named "A")))
        (.array (.array (.named "java.util.List"))) = true ∧
      mutualTrace.registry.isSubtype (.array (.array (.named "A")))
        (.array (.named ClassName.cloneable)) = true ∧
      (ValueType.array (.array (.named "A"))).width = (ValueType.array (.array (.named "B"))).width := by
  have hbare : mutualTrace.registry.BareArrayParents := by
    apply Trace.bareArrayParents_registry
    intro d hd
    simp only [mutualTrace, List.mem_cons, List.not_mem_nil, or_false] at hd
    rcases hd with rfl | rfl
    · exact ⟨by decide, by decide⟩
    · exact ⟨by decide, by decide⟩
  obtain ⟨-, htrans, hwidth⟩ := isSubtype_preorder hbare
  have hfirst : mutualTrace.registry.Extends (.named "A") (.named "B") := by
    show _ ∈ mutualTrace.registry.supertypes (.named "A")
    decide
  have hsecond : mutualTrace.registry.Extends (.named "B") (.named "java.util.List") := by
    show _ ∈ mutualTrace.registry.supertypes (.named "B")
    decide
  have harrays : ∀ {x y : String}, mutualTrace.registry.Extends (.named x) (.named y) →
      mutualTrace.registry.isSubtype (.array (.array (.named x))) (.array (.array (.named y))) = true := by
    intro x y hstep
    exact isSubtype_of_below (.array rfl rfl (.array rfl rfl
      (.steps ⟨rfl, rfl⟩ ⟨rfl, rfl⟩ (.single hstep))))
  have hAB := harrays hfirst
  have hlists := htrans _ _ _ hAB (harrays hsecond)
  refine ⟨hbare, hlists, ?_, (hwidth _ _ hAB (by decide)).2.2⟩
  exact htrans _ _ _ hlists (isSubtype_of_below (.array rfl rfl (.cloneable _)))

/-! ## Compatible types -/

/-- Compatible without a conversion is the same as being a subtype. -/
theorem isCompatible_eq_isSubtype (r : Registry) (source target : ValueType) :
    r.isCompatible source target = r.isSubtype source target := by
  rw [Bool.eq_iff_iff]
  exact ⟨isSubtype_of_isCompatible, isCompatible_of_isSubtype⟩

end Registry

end Lockstep
