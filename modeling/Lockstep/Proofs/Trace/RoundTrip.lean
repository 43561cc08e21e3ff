import Lockstep.Proofs.Trace.Documents

/-!
# Traces that are written and read back

A trace that was read, from whatever document, has readable types, so what is written of
it is read as the same trace (`Trace.round_trip`).  The document can leave out fields that
have a default: reading a record without such a field is reading it with the default in
its place (`ofDatum?_cons_default`, for each kind of record), and what is written then has
all of them.
-/

namespace Lockstep

open Datum

/-! ## What can be left out -/

/-- The fields that can be left out of a variable. -/
def Variable.defaults : List (String × Datum) := [("holder", .bool false)]

/-- The fields that can be left out of a declaration. -/
def ClassDecl.defaults : List (String × Datum) :=
  [("kind", .text "class"), ("superclass", .null), ("interfaces", .array [])]

/-- The operands that can be left out of a step. -/
def Step.defaults (op : String) : List (String × Datum) :=
  match op with
  | "replace" => [("n", .int 1)]
  | "cast_to_bool" => [("empty_default", .bool false)]
  | "load_var" => [("use_reference_directly", .bool false)]
  | _ => []

/-- All fields can be left out of a trace. -/
def Trace.defaults : List (String × Datum) :=
  [("source", .text ""), ("class_name", .text ""), ("callable", .text ""),
   ("classes", .array []), ("aliases", .object []), ("steps", .array [])]

section Defaults

variable {form : Form} {fields : List (String × Datum)} {name : String} {default : Datum}

theorem Variable.ofDatum?_cons_default (hdefault : (name, default) ∈ defaults)
    (h : valuesOf name fields = []) :
    ofDatum? (.record form ((name, default) :: fields)) = ofDatum? (.record form fields) := by
  simp only [defaults, List.mem_singleton, Prod.mk.injEq] at hdefault
  obtain ⟨rfl, rfl⟩ := hdefault
  have hfalse : toBool? (.bool false) = some false := rfl
  simp [ofDatum?, toFields?, required_cons_of_ne, optional_cons_self h hfalse]

theorem ClassDecl.ofDatum?_cons_default (hdefault : (name, default) ∈ defaults)
    (h : valuesOf name fields = []) :
    ofDatum? (.record form ((name, default) :: fields)) = ofDatum? (.record form fields) := by
  simp only [defaults, List.mem_cons, List.not_mem_nil, or_false, Prod.mk.injEq] at hdefault
  rcases hdefault with ⟨rfl, rfl⟩ | ⟨rfl, rfl⟩ | ⟨rfl, rfl⟩
  · have hsort : ClassSort.ofDatum? (.text "class") = some .ordinary := rfl
    simp [ofDatum?, toFields?, required_cons_of_ne, optional_cons_of_ne,
      optional_cons_self h hsort]
  · have hsuper : toTypeOrNull? .null = some none := rfl
    simp [ofDatum?, toFields?, required_cons_of_ne, optional_cons_of_ne,
      optional_cons_self h hsuper]
  · have hinterfaces : toList? toType? (.array []) = some [] := rfl
    simp [ofDatum?, toFields?, required_cons_of_ne, optional_cons_of_ne,
      optional_cons_self h hinterfaces]

/-- Three operations have an operand that can be left out. -/
theorem Step.mem_defaults {op : String} (h : (name, default) ∈ defaults op) :
    (op = "replace" ∧ name = "n" ∧ default = .int 1) ∨
      (op = "cast_to_bool" ∧ name = "empty_default" ∧ default = .bool false) ∨
      (op = "load_var" ∧ name = "use_reference_directly" ∧ default = .bool false) := by
  unfold defaults at h
  split at h
  all_goals simp_all

theorem Step.ofFields?_cons_default {op : String} (hdefault : (name, default) ∈ defaults op)
    (h : valuesOf name fields = []) :
    ofFields? op ((name, default) :: fields) = ofFields? op fields := by
  have hfalse : toBool? (.bool false) = some false := rfl
  rcases mem_defaults hdefault with ⟨rfl, rfl, rfl⟩ | ⟨rfl, rfl, rfl⟩ | ⟨rfl, rfl, rfl⟩
  · have hone : toUInt64? (.int 1) = some 1 := rfl
    simp [ofFields?, required_cons_of_ne, optional_cons_self h hone]
  · simp [ofFields?, required_cons_of_ne, optional_cons_self h hfalse]
  · simp [ofFields?, required_cons_of_ne, optional_cons_self h hfalse]

theorem Step.buffer?_of_mem_defaults {op : String} (hdefault : (name, default) ∈ defaults op) :
    name ≠ "op" ∧ default.buffer? = some default := by
  rcases mem_defaults hdefault with ⟨-, rfl, rfl⟩ | ⟨-, rfl, rfl⟩ | ⟨-, rfl, rfl⟩
  all_goals exact ⟨by decide, rfl⟩

theorem Step.ofDatum?_cons_default {op : String} (hop : valuesOf "op" fields = [.text op])
    (hdefault : (name, default) ∈ defaults op) (h : valuesOf name fields = []) :
    ofDatum? (.record form ((name, default) :: fields)) = ofDatum? (.record form fields) := by
  obtain ⟨hname, hbuffer⟩ := buffer?_of_mem_defaults hdefault
  cases hbuffered : bufferFields? fields with
  | none => simp [ofDatum?, buffer?, bufferFields?, hbuffered, hbuffer]
  | some buffered =>
      have hop' : valuesOf "op" buffered = [.text op] := by
        have hvalues := valuesOf_of_bufferFields? hbuffered "op"
        rw [hop] at hvalues
        exact (Option.some.inj hvalues).symm
      have h' : valuesOf name buffered = [] := by
        have hvalues := valuesOf_of_bufferFields? hbuffered name
        rw [h] at hvalues
        exact (Option.some.inj hvalues).symm
      have hrequired : required buffered "op" toText? = some op := by
        rw [required, hop']
        rfl
      simp [ofDatum?, buffer?, bufferFields?, hbuffered, hbuffer, required_cons_of_ne hname,
        hrequired, ofFields?_cons_default hdefault h']

theorem Trace.ofDatum?_cons_default (hdefault : (name, default) ∈ defaults)
    (h : valuesOf name fields = []) :
    ofDatum? (.record form ((name, default) :: fields)) = ofDatum? (.record form fields) := by
  have hempty : toText? (.text "") = some "" := rfl
  simp only [defaults, List.mem_cons, List.not_mem_nil, or_false, Prod.mk.injEq] at hdefault
  rcases hdefault with ⟨rfl, rfl⟩ | ⟨rfl, rfl⟩ | ⟨rfl, rfl⟩ | ⟨rfl, rfl⟩ | ⟨rfl, rfl⟩ | ⟨rfl, rfl⟩
  · simp [ofDatum?, toFields?, optional_cons_of_ne, optional_cons_self h hempty]
  · simp [ofDatum?, toFields?, optional_cons_of_ne, optional_cons_self h hempty]
  · simp [ofDatum?, toFields?, optional_cons_of_ne, optional_cons_self h hempty]
  · have hclasses : toList? ClassDecl.ofDatum? (.array []) = some [] := rfl
    simp [ofDatum?, toFields?, optional_cons_of_ne, optional_cons_self h hclasses]
  · have haliases : Aliases.ofDatum? (.object []) = some .empty := rfl
    simp [ofDatum?, toFields?, optional_cons_of_ne, optional_cons_self h haliases]
  · have hsteps : toList? Step.ofDatum? (.array []) = some [] := rfl
    simp [ofDatum?, toFields?, optional_cons_of_ne, optional_cons_self h hsteps]

end Defaults

namespace Trace

/-- A trace without floating-point literals, all of whose types can be read from some text,
is written as a JSON value and read back from it.  So whatever a trace was read from, what
is written of it is read as the same trace, also if fields were left out: a field that can
be left out of a trace, a declaration, a variable or a step is as good as one with its
default. -/
theorem round_trip :
    (∀ t : Trace, (∀ type ∈ t.types, ∃ s, ValueType.parse s = .ok type) →
      (∀ value ∈ t.literals, value.isFloating = false) →
        t.toDatum.IsJson ∧ ofDatum? t.toDatum = some t) ∧
    (∀ (d : Datum) (t : Trace), ofDatum? d = some t →
      (∀ value ∈ t.literals, value.isFloating = false) →
        t.toDatum.IsJson ∧ ofDatum? t.toDatum = ofDatum? d) ∧
    ∀ (form : Form) (fields : List (String × Datum)) (name : String) (default : Datum),
      valuesOf name fields = [] →
        ((name, default) ∈ defaults → ofDatum? (.record form ((name, default) :: fields)) =
          ofDatum? (.record form fields)) ∧
        ((name, default) ∈ ClassDecl.defaults →
          ClassDecl.ofDatum? (.record form ((name, default) :: fields)) =
            ClassDecl.ofDatum? (.record form fields)) ∧
        ((name, default) ∈ Variable.defaults →
          Variable.ofDatum? (.record form ((name, default) :: fields)) =
            Variable.ofDatum? (.record form fields)) ∧
        ∀ op, valuesOf "op" fields = [.text op] → (name, default) ∈ Step.defaults op →
          Step.ofDatum? (.record form ((name, default) :: fields)) =
            Step.ofDatum? (.record form fields) := by
  refine ⟨?_, ?_, ?_⟩
  · intro t htypes hliterals
    have hreadable : ∀ type ∈ t.types, type.IsReadable := fun type htype =>
      ValueType.isReadable_iff.mpr (htypes type htype)
    exact ⟨isJson_toDatum hliterals, ofDatum?_toDatum hreadable⟩
  · intro d t hread hliterals
    have hback : ofDatum? t.toDatum = some t := ofDatum?_toDatum (isReadable_of_ofDatum? hread)
    exact ⟨isJson_toDatum hliterals, hback.trans hread.symm⟩
  · intro form fields name default h
    refine ⟨fun hdefault => ofDatum?_cons_default hdefault h,
      fun hdefault => ClassDecl.ofDatum?_cons_default hdefault h,
      fun hdefault => Variable.ofDatum?_cons_default hdefault h, ?_⟩
    intro op hop hdefault
    exact Step.ofDatum?_cons_default hop hdefault h

/-- A trace with a declaration, an alias, and a step for each field that can be left out. -/
def sampleTrace : Trace :=
  ⟨"", "A", "", [⟨"A", .ordinary, none, []⟩], .ofList [("B", .array .string)],
    [.replace (.array .string) 1, .castToBool 0 false,
      .loadVar ⟨"x", 3, .array .string, false⟩ false, .constant .null (.array .string)]⟩

/-- The steps as they may stand in a document. -/
def sampleSteps : List Datum :=
  [.object [("op", .text "replace"), ("type", .text "java.lang.String[]")],
   .object [("op", .text "cast_to_bool"), ("mark", .int 0)],
   .object [("op", .text "load_var"), ("var", .object [("name", .text "x"),
     ("index", .int 3), ("type", .text "java.lang.String[]")])],
   .object [("op", .text "constant"), ("value", .object [("kind", .text "null")]),
     ("type", .text "java.lang.String[]")]]

/-- The trace as it may stand in a document that leaves out what it can. -/
def sampleDatum : Datum :=
  .object
    [("class_name", .text "A"), ("classes", .array [.object [("name", .text "A")]]),
     ("aliases", .object [("B", .text "java.lang.String[]")]), ("steps", .array sampleSteps)]

/-- All defaults are filled in when the document is read; what is then written is longer,
and is read alike. -/
theorem round_trip_sample :
    ofDatum? sampleDatum = some sampleTrace ∧ ofDatum? sampleTrace.toDatum = some sampleTrace ∧
      sampleTrace.toDatum.IsJson ∧
      ofDatum? (.record .json (("source", .text "") :: [("class_name", .text "A")])) =
        ofDatum? (.record .json [("class_name", .text "A")]) := by
  have hstrings : toType? (.text "java.lang.String[]") = some (.array .string) :=
    toType?_text (t := .array .string) rfl
  have haliases : Aliases.ofDatum? (.object [("B", .text "java.lang.String[]")]) =
      some (.ofList [("B", .array .string)]) := by
    simp [Aliases.ofDatum?, Datum.object, toEntries?, hstrings]
  have hreplace : Step.ofDatum? (.object [("op", .text "replace"),
      ("type", .text "java.lang.String[]")]) = some (.replace (.array .string) 1) := by
    refine (Step.ofDatum?_object rfl rfl).trans ?_
    simp [Step.ofFields?, required, Datum.optional, valuesOf, hstrings]
  have hload : Step.ofDatum? (.object [("op", .text "load_var"), ("var", .object
      [("name", .text "x"), ("index", .int 3), ("type", .text "java.lang.String[]")])]) =
        some (.loadVar ⟨"x", 3, .array .string, false⟩ false) := by
    refine (Step.ofDatum?_object rfl rfl).trans ?_
    simp [Step.ofFields?, Variable.ofDatum?, toFields?, required, Datum.optional, valuesOf,
      toText?, hstrings]
    rfl
  have hconstant : Step.ofDatum? (.object [("op", .text "constant"), ("value", .object
      [("kind", .text "null")]), ("type", .text "java.lang.String[]")]) =
        some (.constant .null (.array .string)) := by
    refine (Step.ofDatum?_object rfl rfl).trans ?_
    simp [Step.ofFields?, required, valuesOf, hstrings]
    rfl
  have hclasses : toList? ClassDecl.ofDatum? (.array [.object [("name", .text "A")]]) =
      some sampleTrace.classes := rfl
  have hsteps : toList? Step.ofDatum? (.array sampleSteps) = some sampleTrace.steps := by
    have hcast : Step.ofDatum? (.object [("op", .text "cast_to_bool"), ("mark", .int 0)]) =
        some (.castToBool 0 false) := rfl
    simp [toList?, array, sampleSteps, sampleTrace, hreplace, hcast, hload, hconstant]
  have hread : ofDatum? sampleDatum = some sampleTrace := by
    simp only [Datum.object] at haliases hclasses
    simp [ofDatum?, sampleDatum, Datum.object, toFields?, Datum.optional, valuesOf, toText?,
      haliases, hclasses, hsteps]
    rfl
  obtain ⟨hforward, hback, hdefaults⟩ := round_trip
  have hliterals : ∀ value ∈ sampleTrace.literals, value.isFloating = false := by decide
  have hwritten := hforward sampleTrace
    (fun type htype => ValueType.isReadable_iff.mp (isReadable_of_ofDatum? hread type htype))
    hliterals
  refine ⟨hread, ?_, hwritten.1, ?_⟩
  · rw [(hback sampleDatum sampleTrace hread hliterals).2, hread]
  · have hsource := (hdefaults .json [("class_name", .text "A")] "source" (.text "") rfl).1
    exact hsource (by simp [defaults])

end Trace

end Lockstep
