import Lockstep.Proofs.Value.Grammar

/-!
# Types that are read back from their texts

Not every type is: a class can have a name with brackets in it, or the name of a keyword.
A type is readable (`ValueType.IsReadable`) when the name at its core is read as itself.
What the reader gives is readable, since it refuses the foreign names and expands the
others (`ValueType.isReadable_of_parse`), and the text of what is readable is read as that
type (`ValueType.parse_text`).  So the readable types are those that the reader gives
(`ValueType.isReadable_iff`).
-/

namespace Lockstep

namespace ValueType

open Lockstep.Text Lockstep.TypeText

/-- A type is read back from its text: the name at its core is read as itself. -/
def IsReadable : ValueType → Prop
  | .primitive _ | .boxed _ => True
  | .named name => readElement name.toList = .ok (.named name)
  | .array component => component.IsReadable

/-- The text of a readable type is read as that type. -/
theorem parse_text {t : ValueType} (h : t.IsReadable) : parse t.text = .ok t := by
  induction t with
  | primitive kind => exact read_leaf (isLeaf_keyword kind) (.keyword kind)
  | boxed kind => exact read_leaf (isLeaf_boxName kind) (.boxName kind)
  | named name =>
      obtain ⟨hleaf, hnames⟩ := readElement_eq_ok_iff.mp h
      exact read_leaf hleaf hnames
  | array component ih =>
      have htext : (array component).text.toList = component.text.toList ++ ['[', ']'] := by
        simp [text]
      have hread : read component.text.toList = .ok component := ih h
      calc parse (array component).text
          = read (component.text.toList ++ ['[', ']'] ++ []) := by
            rw [parse, htext, List.append_nil]
        _ = (read component.text.toList).map .array := read_append_brackets allBlank_nil _
        _ = .ok (array component) := by
            rw [hread]
            rfl

/-- What a leaf names is readable. -/
theorem isReadable_of_names {name : String} {t : ValueType} (hleaf : IsLeaf name)
    (hnames : Names name t) : t.IsReadable := by
  cases hnames with
  | keyword kind => trivial
  | boxName kind => trivial
  | string => rfl
  | object => rfl
  | own hown => exact readElement_eq_ok_iff.mpr ⟨hleaf, .own hown⟩

theorem isReadable_iterate_array {t : ValueType} (h : t.IsReadable) (n : ℕ) :
    (array^[n] t).IsReadable := by
  induction n with
  | zero => exact h
  | succ n ih =>
      rw [Function.iterate_succ_apply']
      exact ih

/-- What the reader gives is readable. -/
theorem isReadable_of_parse {s : String} {t : ValueType} (h : parse s = .ok t) :
    t.IsReadable := by
  obtain ⟨f, leaf, element, hleaf, -, hnames, rfl⟩ := read_eq_ok_iff.mp h
  exact isReadable_iterate_array (isReadable_of_names hleaf hnames) f.layers

/-- The readable types are those that the reader gives. -/
theorem isReadable_iff {t : ValueType} : t.IsReadable ↔ ∃ s, parse s = .ok t :=
  ⟨fun h => ⟨t.text, parse_text h⟩, fun ⟨_, h⟩ => isReadable_of_parse h⟩

end ValueType

end Lockstep
