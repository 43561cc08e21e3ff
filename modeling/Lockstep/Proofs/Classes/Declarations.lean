import Lockstep.Proofs.Classes.Order

/-!
# What declarations keep

A declaration replaces the direct supertypes of its name, also for a name that was not
declared before: an unknown class is directly below the root, and a declared one need not
be.  What was a subtype stays one all the same (`Registry.isSubtype_declare_of_new`).  The
only step that a new declaration can take away leads to the root.  No step leads on from
there, so every path up to another type is left as it was, and references are below the
root without any path.

`Registry.Keeps` says this of two registries.  It is transitive, so a run of declarations
keeps what held at its start, if none of them declares a name again
(`Registry.Keeps.foldl_declare`).  For a trace that declares new classes, the platform's
subtypes are its own (`Trace.isSubtype_registry_of_platform`).
-/

namespace Lockstep.Registry

variable {r r' r'' : Registry} {t u : ValueType} {name : String}

/-! ## Steps that are kept -/

/-- Every direct supertype in one registry is above the same type in the other, or is the
root. -/
def Keeps (r r' : Registry) : Prop :=
  ∀ t u, r.Extends t u → u = .object ∨ Relation.TransGen r'.Extends t u

namespace Keeps

/-- What is above a type stays above it, or is the root. -/
theorem above (h : r.Keeps r') (hpath : Relation.TransGen r.Extends t u) :
    u = .object ∨ Relation.TransGen r'.Extends t u := by
  induction hpath with
  | single hstep => exact h _ _ hstep
  | tail hpath hstep ih =>
      rcases ih with rfl | habove
      · -- no step leads on from the root
        exact absurd (.single hstep) not_transGen_object
      · rcases h _ _ hstep with hobject | hrest
        · exact .inl hobject
        · exact .inr (habove.trans hrest)

theorem refl (r : Registry) : r.Keeps r := fun _ _ hstep => .inr (.single hstep)

theorem trans (h : r.Keeps r') (h' : r'.Keeps r'') : r.Keeps r'' := by
  intro t u hstep
  rcases h t u hstep with hobject | hpath
  · exact .inl hobject
  · exact h'.above hpath

/-- The rules carry over: a path that is lost led to the root, and references are below the
root by a rule of their own. -/
theorem below (h : r.Keeps r') (hbelow : r.Below t u) : r'.Below t u := by
  induction hbelow with
  | refl t => exact .refl t
  | object ht => exact .object ht
  | array ht hu _ ih => exact .array ht hu ih
  | cloneable t => exact .cloneable t
  | serializable t => exact .serializable t
  | steps ht hu hpath =>
      rcases h.above hpath with rfl | hpath'
      · exact .object ht.1
      · exact .steps ht hu hpath'

theorem isSubtype (h : r.Keeps r') (hsub : r.isSubtype t u = true) : r'.isSubtype t u = true :=
  isSubtype_of_below (h.below (below_of_isSubtype hsub))

end Keeps

/-! ## Declarations of new names -/

/-- A new declaration hides none of the others. -/
theorem info?_declare_of_new (hnew : r.classes.lookup name = none) (info : ClassInfo)
    {known : ClassInfo} (h : r.info? t = some known) :
    (r.declare name info).info? t = some known := by
  have hlookup : ∀ {other : String}, r.classes.lookup other = some known →
      (r.declare name info).classes.lookup other = some known := by
    intro other hother
    have hne : other ≠ name := by
      rintro rfl
      cases hnew.symm.trans hother
    rw [lookup_declare_of_ne hne]
    exact hother
  cases t with
  | boxed kind => exact hlookup h
  | named other => exact hlookup h
  | primitive kind => cases h
  | array component => cases h

namespace Keeps

/-- A declared class keeps its direct supertypes, an array has the same three, and of any
other type only the root was a direct supertype. -/
theorem declare_of_new (hnew : r.classes.lookup name = none) (info : ClassInfo) :
    r.Keeps (r.declare name info) := by
  intro t u hstep
  unfold Extends supertypes at hstep
  split at hstep
  · cases hstep
  · next hroot =>
      split at hstep
      · next known hknown =>
          refine .inr (.single ?_)
          unfold Extends supertypes
          rw [if_neg hroot, info?_declare_of_new hnew info hknown]
          exact hstep
      · split at hstep
        · next harray =>
            cases t with
            | array component => exact .inr (.single hstep)
            | _ => cases harray
        · exact .inl (List.mem_singleton.mp hstep)

/-- An alias adds and removes no step. -/
theorem addAlias (r : Registry) (name : String) (target : ValueType) :
    r.Keeps (r.addAlias name target) := refl r

/-- A run of declarations of different names, none of which was declared before. -/
theorem foldl_declare (ds : List ClassDecl) (hnodup : (ds.map ClassDecl.name).Nodup)
    (hnew : ∀ d ∈ ds, r.classes.lookup d.name = none) :
    r.Keeps (ds.foldl (fun r d => r.declare d.name d.info) r) := by
  induction ds generalizing r with
  | nil => exact refl r
  | cons d ds ih =>
      obtain ⟨hfirst, hrest⟩ := List.nodup_cons.mp hnodup
      -- the other names are still new after the first declaration
      have hstill : ∀ e ∈ ds, (r.declare d.name d.info).classes.lookup e.name = none := by
        intro e he
        have hne : e.name ≠ d.name := by
          intro heq
          exact hfirst (heq ▸ List.mem_map_of_mem he)
        rw [lookup_declare_of_ne hne]
        exact hnew e (List.mem_cons_of_mem _ he)
      exact (declare_of_new (hnew d List.mem_cons_self) d.info).trans (ih hrest hstill)

end Keeps

/-- Declaring a new class never takes a subtype away, whatever its superclass and interfaces
are. -/
theorem isSubtype_declare_of_new (r : Registry) {name : String}
    (hnew : r.classes.lookup name = none) (info : ClassInfo) (a b : ValueType)
    (h : r.isSubtype a b = true) : (r.declare name info).isSubtype a b = true :=
  (Keeps.declare_of_new hnew info).isSubtype h

/-- One class, below another that is not declared. -/
def forwardRegistry : Registry := empty.declareClass "A" (some "B") []

/-- What the class that is missing turns out to be: its only superclass is the first, and the
root is not above it any more. -/
def circularInfo : ClassInfo := ⟨.ordinary, some (.named "A"), []⟩

/-- The second declaration closes a cycle and takes away the step to the root.  Arrays of
the first class are still arrays of the second and of objects. -/
theorem isSubtype_declare_of_new_circular :
    forwardRegistry.supertypes (.named "B") = [.object] ∧
      (forwardRegistry.declare "B" circularInfo).supertypes (.named "B") = [.named "A"] ∧
      (forwardRegistry.declare "B" circularInfo).isSubtype
        (.array (.named "A")) (.array (.named "B")) = true ∧
      (forwardRegistry.declare "B" circularInfo).isSubtype
        (.array (.named "B")) (.array .object) = true := by
  have hstep : forwardRegistry.Extends (.named "A") (.named "B") := by
    show _ ∈ forwardRegistry.supertypes (.named "A")
    decide
  have hAB : forwardRegistry.isSubtype (.array (.named "A")) (.array (.named "B")) = true :=
    isSubtype_of_below (.array rfl rfl (.steps ⟨rfl, rfl⟩ ⟨rfl, rfl⟩ (.single hstep)))
  have hobject : forwardRegistry.isSubtype (.array (.named "B")) (.array .object) = true :=
    isSubtype_of_below (.array rfl rfl (.object rfl))
  refine ⟨by decide, by decide, ?_, ?_⟩
  · exact isSubtype_declare_of_new forwardRegistry (by decide) circularInfo _ _ hAB
  · exact isSubtype_declare_of_new forwardRegistry (by decide) circularInfo _ _ hobject

end Lockstep.Registry

namespace Lockstep.Trace

/-- A trace that declares new classes, each of them once, keeps the subtypes of the
platform. -/
theorem isSubtype_registry_of_platform (t : Trace) (hnodup : (t.classes.map ClassDecl.name).Nodup)
    (hnew : ∀ d ∈ t.classes, Registry.platform.classes.lookup d.name = none) {a b : ValueType}
    (h : Registry.platform.isSubtype a b = true) : t.registry.isSubtype a b = true := by
  have hkeeps : Registry.platform.Keeps t.registry := by
    unfold registry
    apply List.foldlRecOn t.aliases.entries
    · exact Registry.Keeps.foldl_declare t.classes hnodup hnew
    · intro r hr entry _
      exact hr.trans (Registry.Keeps.addAlias r entry.1 entry.2)
  exact hkeeps.isSubtype h

end Lockstep.Trace
