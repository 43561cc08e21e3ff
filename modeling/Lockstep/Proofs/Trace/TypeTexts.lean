import Lockstep.Proofs.Json.Strings
import Lockstep.Proofs.Trace.Documents
import Lockstep.Proofs.Value.TypeText

/-!
# Types and their texts

A type that was read is read back from its text, as a text, as a value of a document and as
JSON (`ValueType.text_round_trip`).  Types that are built otherwise need not be: an array of
the class with the name `int` has the text of an array of ints.  Those that can be read are
told by the element below all layers of an array, which has to be what its own text names
(`ValueType.IsElement`).
-/

namespace Lockstep.ValueType

open Lockstep.TypeText

variable {t : ValueType}

/-- The element of an array below all of its layers; of what is no array, the type itself. -/
def innermost : ValueType → ValueType
  | .array component => component.innermost
  | t => t

/-- A type that is no array and that its own text names: a primitive, a box, or a class whose
name is a leaf and is not taken for another. -/
inductive IsElement : ValueType → Prop
  | primitive (kind : Prim) : IsElement (.primitive kind)
  | boxed (kind : Prim) : IsElement (.boxed kind)
  | named {name : String} (hleaf : IsLeaf name) (hown : IsOwn name) : IsElement (.named name)

/-- A leaf that names the class of that name is not taken for another. -/
theorem isOwn_of_names {name : String} (h : Names name t) (ht : t = .named name) :
    IsOwn name := by
  cases h with
  | keyword kind => cases ht
  | boxName kind => cases ht
  | string => exact absurd (ValueType.named.inj ht) (by decide)
  | object => exact absurd (ValueType.named.inj ht) (by decide)
  | own hown => exact hown

/-- The readable types are told by their innermost elements. -/
theorem isReadable_iff_isElement : t.IsReadable ↔ IsElement t.innermost := by
  induction t with
  | primitive kind => exact ⟨fun _ => .primitive kind, fun _ => trivial⟩
  | boxed kind => exact ⟨fun _ => .boxed kind, fun _ => trivial⟩
  | named name =>
      constructor
      · intro h
        obtain ⟨hleaf, hnames⟩ := readElement_eq_ok_iff.mp h
        exact .named hleaf (isOwn_of_names hnames rfl)
      · intro h
        cases h with
        | named hleaf hown => exact readElement_eq_ok_iff.mpr ⟨hleaf, .own hown⟩
  | array component ih => exact ih

/-- A readable type is read back from the JSON text that is written of it. -/
theorem toType?_of_json (h : t.IsReadable) :
    (Json.read (Json.write (Datum.ofType t))).bind Datum.toType? = some t := by
  calc (Json.read (Json.write (Datum.ofType t))).bind Datum.toType?
      = (some (Datum.text t.text)).bind Datum.toType? := by
        rw [Datum.ofType, Json.read_write_text]
    _ = some t := Datum.toType?_text h

/-- What the reader gives is read back from its text.  So every type of a trace that was read
is read back from what is written of it, in a document and in JSON.  The types that the reader
gives are those whose innermost element is a primitive, a box, or a class whose name has at
least one character, none of them blank and none a bracket, and is no keyword, not the name
of a box and not one of the two short forms. -/
theorem text_round_trip :
    (∀ s t, parse s = .ok t → parse t.text = .ok t) ∧
      (∀ d (trace : Trace), Trace.ofDatum? d = some trace → ∀ t ∈ trace.types,
        (Datum.ofType t).toType? = some t ∧
          (Json.read (Json.write (Datum.ofType t))).bind Datum.toType? = some t) ∧
      ∀ t, (∃ s, parse s = .ok t) ↔ IsElement t.innermost := by
  refine ⟨?_, ?_, ?_⟩
  · intro s t h
    exact parse_text (isReadable_of_parse h)
  · intro d trace h t ht
    have hreadable : t.IsReadable := Trace.isReadable_of_ofDatum? h t ht
    exact ⟨Datum.toType?_text hreadable, toType?_of_json hreadable⟩
  · intro t
    rw [← isReadable_iff_isElement]
    exact isReadable_iff.symm

/-- A short form is read, and the long one is read back; the class with the name of a keyword
has a text that is read as the keyword, so nothing is read as an array of that class. -/
theorem text_round_trip_strings :
    parse " String []" = .ok (.array .string) ∧
      parse "java.lang.String[]" = .ok (.array .string) ∧
      ¬ ∃ s, parse s = .ok (.array (.named "int")) := by
  have hblank : ∀ blanks : List Char, blanks.all Text.isBlank = true → Text.AllBlank blanks :=
    fun _ h => List.all_eq_true.mp h
  have hgaps : ∀ gap ∈ [[' ']], Text.AllBlank gap := by
    intro gap hgap
    rw [List.mem_singleton.mp hgap]
    exact hblank _ rfl
  have hread : parse " String []" = .ok (.array .string) :=
    read_eq_ok_iff.mpr ⟨⟨[' '], [[' ']], [], hblank _ rfl, hgaps, hblank _ rfl⟩, "String", _,
      isLeaf_of_any_isForeign (by decide) rfl, rfl, .string, rfl⟩
  refine ⟨hread, text_round_trip.1 _ _ hread, ?_⟩
  intro h
  have helement : IsElement (.named "int") := (text_round_trip.2.2 _).mp h
  cases helement with
  | named hleaf hown => exact hown.keyword .int rfl

end Lockstep.ValueType
