import Lockstep.Proofs.Document.Values
import Lockstep.Trace.Document

/-!
# What is written of a trace

For literals, variables, steps, declarations, aliases and whole traces alike, three facts:
what is written is read as what it was written of, if the types in it are readable
(`ofDatum?_toDatum`); without floating-point literals it is a JSON value
(`isJson_toDatum`); and the types in what was read, from whatever document, are readable
(`isReadable_of_ofDatum?`).

A step is buffered before it is read, so the literal or the variable in it has to survive
that as well (`Datum.ReadsBuffered`).
-/

namespace Lockstep

open Datum

/-! ## What a trace contains -/

def Literal.isFloating : Literal → Bool
  | .float _ | .double _ => true
  | _ => false

namespace Step

/-- The types that a step names. -/
def types : Step → List ValueType
  | .push t | .replace t _ | .cast t | .coerce t | .constant _ t => [t]
  | .loadVar x _ | .storeVar x => [x.type]
  | _ => []

def literal? : Step → Option Literal
  | .constant value _ => some value
  | _ => none

end Step

/-- The types that a declaration names. -/
def ClassDecl.types (d : ClassDecl) : List ValueType := d.superclass.toList ++ d.interfaces

namespace Trace

/-- The types that are named anywhere in a trace. -/
def types (t : Trace) : List ValueType :=
  t.classes.flatMap ClassDecl.types ++ t.aliases.entries.map Prod.snd ++
    t.steps.flatMap Step.types

def literals (t : Trace) : List Literal := t.steps.filterMap Step.literal?

end Trace

/-! ## Inside a step -/

/-- A datum is read as some value after it was buffered. -/
def Datum.ReadsBuffered {α : Type} (read : Datum → Option α) (d : Datum) (x : α) : Prop :=
  ∃ buffered, d.buffer? = some buffered ∧ read buffered = some x

namespace Literal

theorem readsBuffered_toDatum (l : Literal) : ReadsBuffered ofDatum? l.toDatum l := by
  cases l with
  | byte v => exact ⟨_, rfl, congrArg (Option.map byte) (toInt8?_int v)⟩
  | char unit => exact ⟨_, rfl, congrArg (Option.map char) (toUInt16?_int unit)⟩
  | short v => exact ⟨_, rfl, congrArg (Option.map short) (toInt16?_int v)⟩
  | int v => exact ⟨_, rfl, congrArg (Option.map int) (toInt32?_int v)⟩
  | long v => exact ⟨_, rfl, congrArg (Option.map long) (toInt64?_int v)⟩
  | _ => exact ⟨_, rfl, rfl⟩

theorem isJson_tagged {kind : String} {value : Datum} (h : value.IsJson) :
    (Datum.object [("kind", .text kind), ("value", value)]).IsJson :=
  .object (by simp) (by simp [IsJson.text, h])

theorem isJson_toDatum {l : Literal} (h : l.isFloating = false) : l.toDatum.IsJson := by
  cases l with
  | null => exact .object (by simp) (by simp [IsJson.text])
  | boolean v => exact isJson_tagged (.bool v)
  | byte v =>
      have hleast := v.le_toInt
      have hgreatest := v.toInt_lt
      exact isJson_tagged (.int (n := v.toInt) (by omega) (by omega))
  | char unit =>
      have hsize := unit.toNat_lt
      exact isJson_tagged (isJson_nat (n := unit.toNat) (by omega))
  | short v =>
      have hleast := v.le_toInt
      have hgreatest := v.toInt_lt
      exact isJson_tagged (.int (n := v.toInt) (by omega) (by omega))
  | int v =>
      have hleast := v.le_toInt
      have hgreatest := v.toInt_lt
      exact isJson_tagged (.int (n := v.toInt) (by omega) (by omega))
  | long v =>
      have hleast := v.le_toInt
      have hgreatest := v.toInt_lt
      exact isJson_tagged (.int (n := v.toInt) (by omega) (by omega))
  | float v => cases h
  | double v => cases h
  | string s => exact isJson_tagged (.text s)
  | bigInteger digits => exact isJson_tagged (.text digits)
  | bigDecimal digits => exact isJson_tagged (.text digits)
  | object className text =>
      have hfields :
          (Datum.object [("class_name", .text className), ("text", .text text)]).IsJson :=
        .object (by simp) (by simp [IsJson.text])
      exact isJson_tagged hfields

end Literal

namespace Variable

variable {x : Variable}

theorem readsBuffered_toDatum (h : x.type.IsReadable) : ReadsBuffered ofDatum? x.toDatum x := by
  refine ⟨_, rfl, ?_⟩
  simp [ofDatum?, toFields?, required, Datum.optional, valuesOf, toText?, toType?_text h, toBool?]

theorem isJson_toDatum (x : Variable) : x.toDatum.IsJson := by
  have hsize := x.index.toNat_lt
  refine .object (by simp) ?_
  simp [IsJson.text, IsJson.bool, isJson_nat (show x.index.toNat < 2 ^ 64 by omega)]

theorem isReadable_of_ofDatum? {d : Datum} (h : ofDatum? d = some x) : x.type.IsReadable := by
  simp only [ofDatum?, Option.bind_eq_bind, Option.bind_eq_some_iff] at h
  obtain ⟨fields, -, name, -, index, -, type, htype, holder, -, heq⟩ := h
  cases heq
  obtain ⟨d, hread⟩ := exists_of_required htype
  exact isReadable_of_toType? hread

end Variable

/-! ## Steps -/

namespace Step

variable {s : Step}

/-- A record with an operation is read by it, after the operands were buffered. -/
theorem ofDatum?_object {op : String} {operands buffered : List (String × Datum)}
    (hbuffer : bufferFields? operands = some buffered) (hop : valuesOf "op" buffered = []) :
    ofDatum? (.object (("op", .text op) :: operands)) =
      ofFields? op (("op", .text op) :: buffered) := by
  have hrequired : required (("op", Datum.text op) :: buffered) "op" toText? = some op := by
    unfold valuesOf at hop
    simp [required, valuesOf, hop, toText?]
  simp [ofDatum?, Datum.object, buffer?, bufferFields?, hbuffer, hrequired]

/-- A step is read back if its types are. -/
theorem ofDatum?_toDatum (h : ∀ t ∈ s.types, t.IsReadable) : ofDatum? s.toDatum = some s := by
  have htype : ∀ t ∈ s.types, (ofType t).toType? = some t := fun t ht => toType?_text (h t ht)
  cases s with
  | pop => rfl
  | dup => rfl
  | swap => rfl
  | box => rfl
  | pushBool value => rfl
  | push t =>
      refine (ofDatum?_object rfl rfl).trans ?_
      simp [ofFields?, required, valuesOf, htype t (by simp [types])]
  | cast t =>
      refine (ofDatum?_object rfl rfl).trans ?_
      simp [ofFields?, required, valuesOf, htype t (by simp [types])]
  | coerce t =>
      refine (ofDatum?_object rfl rfl).trans ?_
      simp [ofFields?, required, valuesOf, htype t (by simp [types])]
  | popDownTo mark =>
      refine (ofDatum?_object rfl rfl).trans ?_
      simp [ofFields?, required, valuesOf]
  | remove amount =>
      refine (ofDatum?_object rfl rfl).trans ?_
      simp [ofFields?, required, valuesOf]
  | line n =>
      refine (ofDatum?_object rfl rfl).trans ?_
      simp [ofFields?, required, valuesOf]
  | replace t n =>
      refine (ofDatum?_object rfl rfl).trans ?_
      simp [ofFields?, required, Datum.optional, valuesOf, htype t (by simp [types])]
  | castToBool mark ifEmpty =>
      refine (ofDatum?_object rfl rfl).trans ?_
      simp [ofFields?, required, Datum.optional, valuesOf, toBool?]
  | constant value t =>
      obtain ⟨buffered, hbuffer, hread⟩ := value.readsBuffered_toDatum
      have hoperands : bufferFields? [("value", value.toDatum), ("type", ofType t)] =
          some [("value", buffered), ("type", ofType t)] := by
        simp [bufferFields?, hbuffer, ofType, buffer?]
      refine (ofDatum?_object hoperands rfl).trans ?_
      simp [ofFields?, required, valuesOf, hread, htype t (by simp [types])]
  | loadVar x cellItself =>
      obtain ⟨buffered, hbuffer, hread⟩ :=
        Variable.readsBuffered_toDatum (h x.type (by simp [types]))
      have hoperands : bufferFields?
          [("var", x.toDatum), ("use_reference_directly", .bool cellItself)] =
            some [("var", buffered), ("use_reference_directly", .bool cellItself)] := by
        simp [bufferFields?, hbuffer, buffer?]
      refine (ofDatum?_object hoperands rfl).trans ?_
      simp [ofFields?, required, Datum.optional, valuesOf, hread, toBool?]
  | storeVar x =>
      obtain ⟨buffered, hbuffer, hread⟩ :=
        Variable.readsBuffered_toDatum (h x.type (by simp [types]))
      have hoperands : bufferFields? [("var", x.toDatum)] = some [("var", buffered)] := by
        simp [bufferFields?, hbuffer]
      refine (ofDatum?_object hoperands rfl).trans ?_
      simp [ofFields?, required, valuesOf, hread]

theorem isJson_tagged {op : String} {operands : List (String × Datum)}
    (hnames : ("op" :: operands.map Prod.fst).Nodup)
    (hoperands : ∀ d ∈ operands.map Prod.snd, d.IsJson) :
    (Datum.object (("op", .text op) :: operands)).IsJson := by
  refine .object hnames ?_
  intro d hd
  rcases List.mem_cons.mp hd with rfl | hd
  · exact .text op
  · exact hoperands d hd

/-- A step without a floating-point literal is written as a JSON value. -/
theorem isJson_toDatum (h : ∀ value ∈ s.literal?, value.isFloating = false) :
    s.toDatum.IsJson := by
  have hnat : ∀ n : UInt64, (Datum.int n.toNat).IsJson := fun n => isJson_nat n.toNat_lt
  cases s with
  | push t => exact isJson_tagged (by simp) (by simp [ofType, IsJson.text])
  | pop => exact isJson_tagged (by simp) (by simp)
  | popDownTo mark => exact isJson_tagged (by simp) (by simp [hnat])
  | remove amount => exact isJson_tagged (by simp) (by simp [hnat])
  | replace t n => exact isJson_tagged (by simp) (by simp [ofType, IsJson.text, hnat])
  | dup => exact isJson_tagged (by simp) (by simp)
  | swap => exact isJson_tagged (by simp) (by simp)
  | box => exact isJson_tagged (by simp) (by simp)
  | cast t => exact isJson_tagged (by simp) (by simp [ofType, IsJson.text])
  | coerce t => exact isJson_tagged (by simp) (by simp [ofType, IsJson.text])
  | castToBool mark ifEmpty => exact isJson_tagged (by simp) (by simp [hnat, IsJson.bool])
  | constant value t =>
      have hvalue := Literal.isJson_toDatum (h value rfl)
      exact isJson_tagged (by simp) (by simp [hvalue, ofType, IsJson.text])
  | loadVar x cellItself =>
      exact isJson_tagged (by simp) (by simp [x.isJson_toDatum, IsJson.bool])
  | storeVar x => exact isJson_tagged (by simp) (by simp [x.isJson_toDatum])
  | pushBool value => exact isJson_tagged (by simp) (by simp [IsJson.bool])
  | line n =>
      have hsize := n.toNat_lt
      exact isJson_tagged (by simp) (by simp [isJson_nat (show n.toNat < 2 ^ 64 by omega)])

theorem isReadable_of_ofFields? {op : String} {fields : List (String × Datum)}
    (h : ofFields? op fields = some s) : ∀ t ∈ s.types, t.IsReadable := by
  have htype : ∀ {t}, required fields "type" toType? = some t → t.IsReadable := by
    intro t ht
    obtain ⟨d, hread⟩ := exists_of_required ht
    exact isReadable_of_toType? hread
  have hvar : ∀ {x}, required fields "var" Variable.ofDatum? = some x → x.type.IsReadable := by
    intro x hx
    obtain ⟨d, hread⟩ := exists_of_required hx
    exact Variable.isReadable_of_ofDatum? hread
  unfold ofFields? at h
  split at h
  all_goals simp only [Option.bind_eq_bind, Option.pure_def, Option.bind_eq_some_iff,
    Option.some.injEq, reduceCtorEq] at h
  · obtain ⟨t, ht, rfl⟩ := h
    simpa [types] using htype ht
  · subst h
    simp [types]
  · obtain ⟨mark, -, rfl⟩ := h
    simp [types]
  · obtain ⟨amount, -, rfl⟩ := h
    simp [types]
  · obtain ⟨t, ht, n, -, rfl⟩ := h
    simpa [types] using htype ht
  · subst h
    simp [types]
  · subst h
    simp [types]
  · subst h
    simp [types]
  · obtain ⟨t, ht, rfl⟩ := h
    simpa [types] using htype ht
  · obtain ⟨t, ht, rfl⟩ := h
    simpa [types] using htype ht
  · obtain ⟨mark, -, ifEmpty, -, rfl⟩ := h
    simp [types]
  · obtain ⟨value, -, t, ht, rfl⟩ := h
    simpa [types] using htype ht
  · obtain ⟨x, hx, cellItself, -, rfl⟩ := h
    simpa [types] using hvar hx
  · obtain ⟨x, hx, rfl⟩ := h
    simpa [types] using hvar hx
  · obtain ⟨value, -, rfl⟩ := h
    simp [types]
  · obtain ⟨n, -, rfl⟩ := h
    simp [types]

/-- The types of a step that was read are readable. -/
theorem isReadable_of_ofDatum? {d : Datum} (h : ofDatum? d = some s) :
    ∀ t ∈ s.types, t.IsReadable := by
  simp only [ofDatum?, Option.bind_eq_bind, Option.bind_eq_some_iff] at h
  obtain ⟨buffered, -, h⟩ := h
  split at h
  · obtain ⟨op, -, h⟩ := Option.bind_eq_some_iff.mp h
    exact isReadable_of_ofFields? h
  · obtain ⟨op, -, h⟩ := Option.bind_eq_some_iff.mp h
    obtain ⟨fields, -, h⟩ := Option.bind_eq_some_iff.mp h
    exact isReadable_of_ofFields? h
  · cases h

end Step

/-! ## Declarations of classes -/

namespace ClassDecl

variable {decl : ClassDecl}

theorem sort_ofDatum?_name (sort : ClassSort) :
    ClassSort.ofDatum? (.text sort.name) = some sort := by
  cases sort <;> rfl

theorem ofDatum?_toDatum (h : ∀ t ∈ decl.types, t.IsReadable) :
    ofDatum? decl.toDatum = some decl := by
  have hsuper : (ofTypeOrNull decl.superclass).toTypeOrNull? = some decl.superclass :=
    toTypeOrNull?_ofTypeOrNull fun t ht => h t (by simp [types, Option.mem_def.mp ht])
  have hinterfaces : toList? toType? (.array (decl.interfaces.map ofType)) =
      some decl.interfaces :=
    toList?_array fun t ht => toType?_text (h t (by simp [types, ht]))
  simp [ofDatum?, toDatum, Datum.object, toFields?, required, Datum.optional, valuesOf, toText?,
    sort_ofDatum?_name, hsuper, hinterfaces]

theorem isJson_toDatum (decl : ClassDecl) : decl.toDatum.IsJson := by
  have hsuper : (ofTypeOrNull decl.superclass).IsJson := by
    cases decl.superclass with
    | none => exact .null
    | some t => exact .text t.text
  have hinterfaces : (array (decl.interfaces.map ofType)).IsJson :=
    isJson_array_map fun t _ => .text t.text
  exact .object (by simp) (by simp [IsJson.text, hsuper, hinterfaces])

/-- The types of a declaration that was read are readable. -/
theorem isReadable_of_ofDatum? {d : Datum} (h : ofDatum? d = some decl) :
    ∀ t ∈ decl.types, t.IsReadable := by
  simp only [ofDatum?, Option.bind_eq_bind, Option.bind_eq_some_iff] at h
  obtain ⟨fields, -, name, -, sort, -, superclass, hsuper, interfaces, hinterfaces, heq⟩ := h
  cases heq
  intro t ht
  rcases List.mem_append.mp ht with ht | ht
  · have hmem : t ∈ superclass := Option.mem_toList.mp ht
    rcases exists_of_optional hsuper with rfl | ⟨d, hread⟩
    · cases hmem
    · exact isReadable_of_toTypeOrNull? hread t hmem
  · obtain ⟨item, hitem⟩ := exists_of_mem_optional hinterfaces ht
    exact isReadable_of_toType? hitem

end ClassDecl

/-! ## Aliases -/

namespace Aliases

theorem insertEntry_of_lt {name : String} {target : ValueType}
    {entries : List (String × ValueType)} (h : ∀ e ∈ entries, e.1 < name) :
    insertEntry name target entries = entries ++ [(name, target)] := by
  induction entries with
  | nil => rfl
  | cons e rest ih =>
      have hlt : e.1 < name := h e List.mem_cons_self
      have hrest := ih fun other hother => h other (List.mem_cons_of_mem e hother)
      have hnot : ¬ name < e.1 := String.lt_asymm hlt
      have hne : name ≠ e.1 := fun heq => String.lt_irrefl _ (heq ▸ hlt)
      simp [insertEntry, hnot, hne, hrest]

/-- Entries in order are put one behind the other. -/
theorem entries_foldl_insert {entries : List (String × ValueType)} {a : Aliases}
    (h : (a.entries ++ entries).Pairwise fun x y => x.1 < y.1) :
    (entries.foldl (fun a (name, target) => a.insert name target) a).entries =
      a.entries ++ entries := by
  induction entries generalizing a with
  | nil => simp
  | cons e rest ih =>
      have hbefore : ∀ other ∈ a.entries, other.1 < e.1 := fun other hother =>
        (List.pairwise_append.mp h).2.2 other hother e List.mem_cons_self
      have hinsert : (a.insert e.1 e.2).entries = a.entries ++ [e] := insertEntry_of_lt hbefore
      rw [List.foldl_cons, ih (a := a.insert e.1 e.2), hinsert, List.append_assoc]
      · rfl
      · rw [hinsert, List.append_assoc]
        exact h

theorem eq_of_entries_eq {a b : Aliases} (h : a.entries = b.entries) : a = b := by
  cases a
  cases b
  simpa using h

/-- A table is the one that is made of its entries. -/
theorem ofList_entries (a : Aliases) : ofList a.entries = a :=
  eq_of_entries_eq (entries_foldl_insert a.sorted)

theorem mem_of_mem_foldl_insert {entries : List (String × ValueType)} {a : Aliases}
    {e : String × ValueType}
    (h : e ∈ (entries.foldl (fun a (name, target) => a.insert name target) a).entries) :
    e ∈ a.entries ∨ e ∈ entries := by
  induction entries generalizing a with
  | nil => exact .inl h
  | cons first rest ih =>
      rcases ih h with hmem | hmem
      · rcases mem_insertEntry hmem with rfl | hmem
        · exact .inr List.mem_cons_self
        · exact .inl hmem
      · exact .inr (List.mem_cons_of_mem first hmem)

/-- A table has no entries but those it was made of. -/
theorem mem_of_mem_ofList {entries : List (String × ValueType)} {e : String × ValueType}
    (h : e ∈ (ofList entries).entries) : e ∈ entries :=
  (mem_of_mem_foldl_insert h).resolve_left List.not_mem_nil

variable {a : Aliases}

theorem ofDatum?_toDatum (h : ∀ e ∈ a.entries, e.2.IsReadable) : ofDatum? a.toDatum = some a := by
  simp only [ofDatum?, toDatum, Datum.object, toEntries?, Option.bind_eq_bind, Option.bind_some]
  rw [mapM_map, Option.bind_some, ofList_entries]
  · rfl
  · intro e he
    have htype : (ofType e.2).toType? = some e.2 := toType?_text (h e he)
    simp [htype]

theorem isJson_toDatum (a : Aliases) : a.toDatum.IsJson := by
  refine .object ?_ ?_
  · rw [List.map_map, List.Nodup, List.pairwise_map]
    exact a.sorted.imp fun hlt => String.ne_of_lt hlt
  · intro d hd
    simp only [List.map_map, List.mem_map] at hd
    obtain ⟨e, -, rfl⟩ := hd
    exact .text e.2.text

/-- The types of a table that was read are readable. -/
theorem isReadable_of_ofDatum? {d : Datum} (h : ofDatum? d = some a) :
    ∀ e ∈ a.entries, e.2.IsReadable := by
  simp only [ofDatum?, Option.bind_eq_bind, Option.bind_eq_some_iff] at h
  obtain ⟨fields, -, entries, hentries, heq⟩ := h
  cases heq
  intro e he
  obtain ⟨field, -, hread⟩ := exists_of_mem_mapM hentries (mem_of_mem_ofList he)
  obtain ⟨t, ht, heq⟩ := Option.bind_eq_some_iff.mp hread
  cases heq
  exact isReadable_of_toType? ht

end Aliases

/-! ## Traces -/

namespace Trace

variable {t : Trace}

/-- A trace with readable types is read back from what is written of it. -/
theorem ofDatum?_toDatum (h : ∀ type ∈ t.types, type.IsReadable) :
    ofDatum? t.toDatum = some t := by
  have hclasses : toList? ClassDecl.ofDatum? (.array (t.classes.map ClassDecl.toDatum)) =
      some t.classes := by
    refine toList?_array fun decl hdecl => ClassDecl.ofDatum?_toDatum fun type htype => ?_
    refine h type (List.mem_append_left _ (List.mem_append_left _ ?_))
    exact List.mem_flatMap.mpr ⟨decl, hdecl, htype⟩
  have haliases : Aliases.ofDatum? t.aliases.toDatum = some t.aliases := by
    refine Aliases.ofDatum?_toDatum fun e he => ?_
    refine h e.2 (List.mem_append_left _ (List.mem_append_right _ ?_))
    exact List.mem_map.mpr ⟨e, he, rfl⟩
  have hsteps : toList? Step.ofDatum? (.array (t.steps.map Step.toDatum)) = some t.steps := by
    refine toList?_array fun step hstep => Step.ofDatum?_toDatum fun type htype => ?_
    exact h type (List.mem_append_right _ (List.mem_flatMap.mpr ⟨step, hstep, htype⟩))
  simp [ofDatum?, toDatum, Datum.object, toFields?, Datum.optional, valuesOf, toText?, hclasses,
    haliases, hsteps]

/-- A trace without floating-point literals is written as a JSON value. -/
theorem isJson_toDatum (h : ∀ value ∈ t.literals, value.isFloating = false) :
    t.toDatum.IsJson := by
  have hclasses : (array (t.classes.map ClassDecl.toDatum)).IsJson :=
    isJson_array_map fun decl _ => decl.isJson_toDatum
  have hsteps : (array (t.steps.map Step.toDatum)).IsJson := by
    refine isJson_array_map fun step hstep => Step.isJson_toDatum fun value hvalue => ?_
    exact h value (List.mem_filterMap.mpr ⟨step, hstep, hvalue⟩)
  exact .object (by simp)
    (by simp [IsJson.text, hclasses, t.aliases.isJson_toDatum, hsteps])

/-- The types of a trace that was read are readable. -/
theorem isReadable_of_ofDatum? {d : Datum} (h : ofDatum? d = some t) :
    ∀ type ∈ t.types, type.IsReadable := by
  simp only [ofDatum?, Option.bind_eq_bind, Option.bind_eq_some_iff] at h
  obtain ⟨fields, -, source, -, className, -, callable, -, classes, hclasses, aliases, haliases,
    steps, hsteps, heq⟩ := h
  cases heq
  intro type htype
  rcases List.mem_append.mp htype with htype | htype
  · rcases List.mem_append.mp htype with htype | htype
    · obtain ⟨decl, hdecl, htype⟩ := List.mem_flatMap.mp htype
      obtain ⟨item, hitem⟩ := exists_of_mem_optional hclasses hdecl
      exact ClassDecl.isReadable_of_ofDatum? hitem type htype
    · obtain ⟨e, he, rfl⟩ := List.mem_map.mp htype
      rcases exists_of_optional haliases with rfl | ⟨d, hread⟩
      · cases he
      · exact Aliases.isReadable_of_ofDatum? hread e he
  · obtain ⟨step, hstep, htype⟩ := List.mem_flatMap.mp htype
    obtain ⟨item, hitem⟩ := exists_of_mem_optional hsteps hstep
    exact Step.isReadable_of_ofDatum? hitem type htype

end Trace

end Lockstep
