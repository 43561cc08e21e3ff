import Mathlib.Data.List.Induction
import Mathlib.Logic.Function.Iterate
import Lockstep.Proofs.Value.Trimming
import Lockstep.Value.TypeText

/-!
# The grammar of type texts

A text of a type is a leaf, which names the element, followed by a pair of brackets for each
array layer.  Blanks may stand in front, before each pair of brackets and at the end.  The
reader accepts these texts and no others, and gives as many array layers over the element as
there are pairs (`ValueType.parse_grammar`).

Whatever a text is, blanks and pairs of brackets can be taken off around it until a *core* is
left that is trimmed and does not end in a pair of brackets (`exists_frame`), and the reader
reads the text as it reads its core, with a layer for each pair (`read_around`).  So only
cores remain to be looked at: a leaf has the type that it names (`Names`), nothing at all is
one fault, and every other core is the other.

The gaps of a `Frame` are listed from left to right, and the reader takes the pairs off from
the right, so what is said of all frames is an induction on the gaps from their end.
-/

namespace Lockstep

/-! ## Names of primitives and boxes -/

theorem Prim.ofKeyword?_eq_some_iff {name : String} {kind : Prim} :
    Prim.ofKeyword? name = some kind ↔ name = kind.keyword := by
  constructor
  · intro h
    unfold Prim.ofKeyword? at h
    have hfound := List.find?_some h
    exact (of_decide_eq_true hfound).symm
  · rintro rfl
    cases kind <;> rfl

theorem Prim.ofBoxName?_eq_some_iff {name : String} {kind : Prim} :
    Prim.ofBoxName? name = some kind ↔ name = kind.boxName := by
  constructor
  · intro h
    unfold Prim.ofBoxName? at h
    have hfound := List.find?_some h
    exact (of_decide_eq_true hfound).symm
  · rintro rfl
    cases kind <;> rfl

theorem Prim.ofKeyword?_eq_none_iff {name : String} :
    Prim.ofKeyword? name = none ↔ ∀ kind : Prim, name ≠ kind.keyword := by
  simp only [Option.eq_none_iff_forall_ne_some, ne_eq, Prim.ofKeyword?_eq_some_iff]

theorem Prim.ofBoxName?_eq_none_iff {name : String} :
    Prim.ofBoxName? name = none ↔ ∀ kind : Prim, name ≠ kind.boxName := by
  simp only [Option.eq_none_iff_forall_ne_some, ne_eq, Prim.ofBoxName?_eq_some_iff]

namespace TypeText

open Lockstep.Text

variable {cs core : List Char} {name : String} {t : ValueType}

/-! ## The grammar -/

/-- What stands around the core of a text: blanks in front, pairs of brackets behind it, each
after a gap of blanks, and blanks at the end. -/
structure Frame where
  before : List Char
  gaps : List (List Char)
  after : List Char
  before_blank : AllBlank before
  gaps_blank : ∀ gap ∈ gaps, AllBlank gap
  after_blank : AllBlank after

namespace Frame

def around (f : Frame) (core : List Char) : List Char :=
  f.before ++ core ++ f.gaps.flatMap (· ++ ['[', ']']) ++ f.after

/-- The number of pairs of brackets. -/
def layers (f : Frame) : Nat := f.gaps.length

end Frame

/-- The name of an element: at least one character, none blank and none a bracket. -/
structure IsLeaf (name : String) : Prop where
  nonempty : name ≠ ""
  plain : ∀ c ∈ name.toList, isBlank c = false ∧ c ≠ '[' ∧ c ≠ ']'

/-- A name that is not taken for the name of anything but the class that has it. -/
structure IsOwn (name : String) : Prop where
  keyword : ∀ kind : Prim, name ≠ kind.keyword
  boxName : ∀ kind : Prim, name ≠ kind.boxName
  string : name ≠ "String"
  object : name ≠ "Object"

/-- The type that a leaf names. -/
inductive Names : String → ValueType → Prop
  | keyword (kind : Prim) : Names kind.keyword (.primitive kind)
  | boxName (kind : Prim) : Names kind.boxName (.boxed kind)
  | string : Names "String" (.named "java.lang.String")
  | object : Names "Object" (.named "java.lang.Object")
  | own {name : String} (h : IsOwn name) : Names name (.named name)

/-- Every leaf names a type. -/
theorem exists_names (name : String) : ∃ t, Names name t := by
  by_cases hkeyword : ∃ kind : Prim, name = kind.keyword
  · obtain ⟨kind, rfl⟩ := hkeyword
    exact ⟨_, .keyword kind⟩
  by_cases hbox : ∃ kind : Prim, name = kind.boxName
  · obtain ⟨kind, rfl⟩ := hbox
    exact ⟨_, .boxName kind⟩
  by_cases hstring : name = "String"
  · subst hstring
    exact ⟨_, .string⟩
  by_cases hobject : name = "Object"
  · subst hobject
    exact ⟨_, .object⟩
  exact ⟨_, .own ⟨not_exists.mp hkeyword, not_exists.mp hbox, hstring, hobject⟩⟩

/-! ## Reading an element -/

theorem isForeign_eq_false_iff {c : Char} :
    isForeign c = false ↔ isBlank c = false ∧ c ≠ '[' ∧ c ≠ ']' := by
  simp [isForeign, and_assoc]

theorem IsLeaf.any_isForeign (h : IsLeaf name) : name.toList.any isForeign = false := by
  rw [List.any_eq_false]
  intro c hc
  rw [isForeign_eq_false_iff.mpr (h.plain c hc)]
  exact Bool.false_ne_true

theorem isLeaf_of_any_isForeign (hne : name ≠ "") (h : name.toList.any isForeign = false) :
    IsLeaf name := by
  refine ⟨hne, fun c hc => ?_⟩
  rw [← isForeign_eq_false_iff, ← Bool.not_eq_true]
  exact List.any_eq_false.mp h c hc

theorem isLeaf_keyword (kind : Prim) : IsLeaf kind.keyword := by
  apply isLeaf_of_any_isForeign
  · cases kind <;> decide
  · cases kind <;> rfl

theorem isLeaf_boxName (kind : Prim) : IsLeaf kind.boxName := by
  apply isLeaf_of_any_isForeign
  · cases kind <;> decide
  · cases kind <;> rfl

/-- A name that is read as an element names the type. -/
theorem names_expand (hkeyword : ∀ kind : Prim, name ≠ kind.keyword) : Names name (expand name) := by
  unfold expand
  split
  · next h => exact h ▸ .string
  · next hstring =>
    split
    · next h => exact h ▸ .object
    · next hobject =>
      unfold ValueType.ofClassName
      split
      · next kind hkind =>
        rw [Prim.ofBoxName?_eq_some_iff.mp hkind]
        exact .boxName kind
      · next hnone =>
        exact .own ⟨hkeyword, Prim.ofBoxName?_eq_none_iff.mp hnone, hstring, hobject⟩

theorem expand_of_isOwn (h : IsOwn name) : expand name = .named name := by
  rw [expand, if_neg h.string, if_neg h.object, ValueType.ofClassName,
    Prim.ofBoxName?_eq_none_iff.mpr h.boxName]

theorem readElement_keyword (kind : Prim) :
    readElement kind.keyword.toList = .ok (.primitive kind) := by
  rw [readElement, String.ofList_toList, Prim.ofKeyword?_eq_some_iff.mpr rfl]

theorem readElement_of_ne_keyword (h : ∀ kind : Prim, name ≠ kind.keyword) :
    readElement name.toList =
      if name.toList.isEmpty then .error .empty
      else if name.toList.any isForeign then .error (.malformed name.toList)
      else .ok (expand name) := by
  rw [readElement, String.ofList_toList, Prim.ofKeyword?_eq_none_iff.mpr h]

/-- An element is read exactly from a leaf, as the type that the leaf names. -/
theorem readElement_eq_ok_iff :
    readElement name.toList = .ok t ↔ IsLeaf name ∧ Names name t := by
  constructor
  · intro h
    by_cases hkeyword : ∃ kind : Prim, name = kind.keyword
    · obtain ⟨kind, rfl⟩ := hkeyword
      rw [readElement_keyword] at h
      cases h
      exact ⟨isLeaf_keyword kind, .keyword kind⟩
    · have hnot : ∀ kind : Prim, name ≠ kind.keyword := not_exists.mp hkeyword
      rw [readElement_of_ne_keyword hnot] at h
      split at h
      · cases h
      · next hempty =>
        split at h
        · cases h
        · next hforeign =>
          cases h
          have hne : name ≠ "" := by
            rintro rfl
            exact hempty rfl
          exact ⟨isLeaf_of_any_isForeign hne (Bool.eq_false_iff.mpr hforeign),
            names_expand hnot⟩
  · rintro ⟨hleaf, hnames⟩
    cases hnames with
    | keyword kind => exact readElement_keyword kind
    | boxName kind => cases kind <;> rfl
    | string => rfl
    | object => rfl
    | own hown =>
        have hempty : name.toList.isEmpty = false := by
          simpa using hleaf.nonempty
        rw [readElement_of_ne_keyword hown.keyword, hempty, hleaf.any_isForeign,
          expand_of_isOwn hown]
        rfl

/-- What is no leaf is refused: as empty if it is, and otherwise as it stands. -/
theorem readElement_of_not_isLeaf (h : ¬ IsLeaf name) :
    readElement name.toList =
      .error (if name = "" then .empty else .malformed name.toList) := by
  have hkeyword : ∀ kind : Prim, name ≠ kind.keyword := by
    rintro kind rfl
    exact h (isLeaf_keyword kind)
  rw [readElement_of_ne_keyword hkeyword]
  by_cases hne : name = ""
  · subst hne
    rfl
  · have hempty : name.toList.isEmpty = false := by
      simpa using hne
    have hforeign : name.toList.any isForeign = true := by
      by_contra hnone
      exact h (isLeaf_of_any_isForeign hne (Bool.eq_false_iff.mpr hnone))
    rw [hempty, hforeign, if_neg hne]
    rfl

/-! ## Cores -/

/-- Nothing can be taken off: no blanks at the ends, and no pair of brackets behind. -/
structure IsCore (cs : List Char) : Prop where
  trimmed : trim cs = cs
  bare : ∀ front, cs ≠ front ++ ['[', ']']

theorem isCore_nil : IsCore [] := ⟨rfl, fun front h => by simp at h⟩

theorem IsLeaf.isCore (h : IsLeaf name) : IsCore name.toList := by
  constructor
  · apply trim_eq_self
    · intro c hc
      exact (h.plain c (List.mem_of_mem_head? hc)).1
    · intro c hc
      exact (h.plain c (List.mem_of_mem_getLast? hc)).1
  · intro front hfront
    have hmem : ']' ∈ name.toList := by
      rw [hfront]
      simp
    exact (h.plain ']' hmem).2.2 rfl

theorem read_array {front : List Char} (h : trim cs = front ++ ['[', ']']) :
    read cs = (read front).map .array := by
  rw [read]
  split
  · next rest hshape =>
    rw [h, List.reverse_append] at hshape
    obtain rfl : front.reverse = rest := by simpa using hshape
    rw [List.reverse_reverse]
  · next hshape =>
    exact absurd (by simp [h]) (hshape front.reverse)

theorem read_element (h : ∀ front, trim cs ≠ front ++ ['[', ']']) :
    read cs = readElement (trim cs) := by
  rw [read]
  split
  · next rest hshape =>
    refine absurd ?_ (h rest.reverse)
    rw [← List.reverse_reverse (trim cs), hshape]
    simp
  · rfl

/-- The reader does not see the blanks around a text. -/
theorem read_congr {cs' : List Char} (h : trim cs = trim cs') : read cs = read cs' := by
  by_cases hbrackets : ∃ front, trim cs = front ++ ['[', ']']
  · obtain ⟨front, hfront⟩ := hbrackets
    rw [read_array hfront, read_array (h.symm.trans hfront)]
  · have hnone : ∀ front, trim cs ≠ front ++ ['[', ']'] := not_exists.mp hbrackets
    rw [read_element hnone, h, ← read_element (h ▸ hnone)]

theorem read_core (h : IsCore core) : read core = readElement core := by
  rw [read_element, h.trimmed]
  intro front hfront
  exact h.bare front (h.trimmed.symm.trans hfront)

theorem read_leaf (hleaf : IsLeaf name) (hnames : Names name t) : read name.toList = .ok t :=
  (read_core hleaf.isCore).trans (readElement_eq_ok_iff.mpr ⟨hleaf, hnames⟩)

theorem trim_brackets (cs : List Char) : trim (cs ++ ['[', ']']) = trimStart cs ++ ['[', ']'] := by
  have hfirst : trimStart (cs ++ ['[', ']']) = trimStart cs ++ ['[', ']'] := by
    have hdrop : trimStart (cs ++ ['[', ']']) =
        if (trimStart cs).isEmpty then ['[', ']'] else trimStart cs ++ ['[', ']'] :=
      List.dropWhile_append
    rw [hdrop]
    split
    · next hempty => rw [List.isEmpty_iff.mp hempty, List.nil_append]
    · rfl
  have hlast : trimStart (trimStart cs ++ ['[', ']']).reverse =
      (trimStart cs ++ ['[', ']']).reverse := by
    apply trimStart_eq_self
    intro c hc
    obtain rfl : ']' = c := by simpa using hc
    rfl
  rw [trim, hfirst, hlast, List.reverse_reverse]

/-- A pair of brackets behind a text, with blanks behind it, is one more layer. -/
theorem read_append_brackets {after : List Char} (h : AllBlank after) (cs : List Char) :
    read (cs ++ ['[', ']'] ++ after) = (read cs).map .array := by
  have htrim : trim (cs ++ ['[', ']'] ++ after) = trimStart cs ++ ['[', ']'] := by
    rw [trim_append_right h, trim_brackets]
  rw [read_array htrim, read_congr (trim_trimStart cs)]

/-! ## Frames -/

/-- A text is read as its core, with a layer for each pair of brackets around it. -/
theorem read_around (hcore : IsCore core) (f : Frame) :
    read (f.around core) = (readElement core).map ValueType.array^[f.layers] := by
  obtain ⟨before, gaps, after, hbefore, hgaps, hafter⟩ := f
  show read (before ++ core ++ gaps.flatMap (· ++ ['[', ']']) ++ after) =
    (readElement core).map ValueType.array^[gaps.length]
  induction gaps using List.reverseRecOn generalizing after with
  | nil =>
      have hblanks : trim (before ++ core ++ [] ++ after) = trim core := by
        rw [List.append_nil, trim_append_right hafter, trim_append_left hbefore]
      calc read (before ++ core ++ [] ++ after) = read core := read_congr hblanks
        _ = readElement core := read_core hcore
        _ = (readElement core).map id := by cases readElement core <;> rfl
  | append_singleton gaps gap ih =>
      have hgap : AllBlank gap := hgaps gap (by simp)
      have hrest : ∀ g ∈ gaps, AllBlank g := fun g hg => hgaps g (by simp [hg])
      -- the gap of the last pair is what stands at the end of the text without the pair
      have hfront := ih gap hrest hgap
      calc read (before ++ core ++ (gaps ++ [gap]).flatMap (· ++ ['[', ']']) ++ after)
          = read (before ++ core ++ gaps.flatMap (· ++ ['[', ']']) ++ gap ++ ['[', ']'] ++ after) := by
            simp
        _ = (read (before ++ core ++ gaps.flatMap (· ++ ['[', ']']) ++ gap)).map .array :=
            read_append_brackets hafter _
        _ = ((readElement core).map ValueType.array^[gaps.length]).map .array := by rw [hfront]
        _ = (readElement core).map ValueType.array^[gaps.length + 1] := by
            rw [Function.iterate_succ']
            cases readElement core <;> rfl
        _ = (readElement core).map ValueType.array^[(gaps ++ [gap]).length] := by simp

/-- Every text has a core. -/
theorem exists_frame (cs : List Char) :
    ∃ (f : Frame) (core : List Char), IsCore core ∧ cs = f.around core := by
  induction cs using read.induct with
  | case1 cs front hshape ih =>
      have htrim : trim cs = front.reverse ++ ['[', ']'] := by
        rw [← List.reverse_reverse (trim cs), hshape]
        simp
      obtain ⟨before, after, hbefore, hafter, hcs⟩ := exists_trim cs
      obtain ⟨f, core, hcore, hfront⟩ := ih
      have hgaps : ∀ gap ∈ f.gaps ++ [f.after], AllBlank gap := by
        intro gap hgap
        rcases List.mem_append.mp hgap with hgap | hgap
        · exact f.gaps_blank gap hgap
        · rw [List.mem_singleton.mp hgap]
          exact f.after_blank
      have hleft : AllBlank (before ++ f.before) := by
        intro c hc
        rcases List.mem_append.mp hc with hc | hc
        · exact hbefore c hc
        · exact f.before_blank c hc
      refine ⟨⟨before ++ f.before, f.gaps ++ [f.after], after, hleft, hgaps, hafter⟩, core,
        hcore, ?_⟩
      calc cs = before ++ (f.around core ++ ['[', ']']) ++ after := by
            rw [← hfront, ← htrim]
            exact hcs
        _ = _ := by simp [Frame.around]
  | case2 cs hshape =>
      obtain ⟨before, after, hbefore, hafter, hcs⟩ := exists_trim cs
      have hbare : ∀ front, trim cs ≠ front ++ ['[', ']'] := by
        intro front htrim
        exact hshape front.reverse (by simp [htrim])
      refine ⟨⟨before, [], after, hbefore, by simp, hafter⟩, trim cs, ⟨trim_trim cs, hbare⟩, ?_⟩
      simpa [Frame.around] using hcs

/-! ## What is read -/

/-- The texts that are read are those of the grammar. -/
theorem read_eq_ok_iff :
    read cs = .ok t ↔ ∃ (f : Frame) (leaf : String) (element : ValueType), IsLeaf leaf ∧
      cs = f.around leaf.toList ∧ Names leaf element ∧ t = ValueType.array^[f.layers] element := by
  constructor
  · intro h
    obtain ⟨f, core, hcore, rfl⟩ := exists_frame cs
    rw [read_around hcore] at h
    cases helement : readElement core with
    | error fault =>
        rw [helement] at h
        cases h
    | ok element =>
        rw [helement] at h
        cases h
        rw [← String.toList_ofList (l := core), readElement_eq_ok_iff] at helement
        refine ⟨f, String.ofList core, element, helement.1, ?_, helement.2, rfl⟩
        rw [String.toList_ofList]
  · rintro ⟨f, leaf, element, hleaf, rfl, hnames, rfl⟩
    rw [read_around hleaf.isCore, readElement_eq_ok_iff.mpr ⟨hleaf, hnames⟩]
    rfl

/-- A text is refused by what its core is: nothing, or something that is no leaf. -/
theorem read_eq_error_iff {fault : Fault} :
    read cs = .error fault ↔ ∃ (f : Frame) (rest : String), IsCore rest.toList ∧ ¬ IsLeaf rest ∧
      cs = f.around rest.toList ∧ fault = if rest = "" then .empty else .malformed rest.toList := by
  constructor
  · intro h
    obtain ⟨f, core, hcore, rfl⟩ := exists_frame cs
    rw [read_around hcore] at h
    rw [← String.toList_ofList (l := core)] at hcore h
    by_cases hleaf : IsLeaf (String.ofList core)
    · obtain ⟨element, hnames⟩ := exists_names (String.ofList core)
      rw [readElement_eq_ok_iff.mpr ⟨hleaf, hnames⟩] at h
      cases h
    · rw [readElement_of_not_isLeaf hleaf] at h
      refine ⟨f, String.ofList core, hcore, hleaf, ?_, (Except.error.inj h).symm⟩
      rw [String.toList_ofList]
  · rintro ⟨f, rest, hcore, hleaf, rfl, rfl⟩
    rw [read_around hcore, readElement_of_not_isLeaf hleaf]
    rfl

/-- The two faults have different texts. -/
theorem Fault.message_eq_iff {fault : Fault} :
    fault.message = "empty type name" ↔ fault = .empty := by
  constructor
  · intro h
    cases fault with
    | empty => rfl
    | malformed rest =>
        have htext : (Fault.malformed rest).message.toList =
            "malformed type name: ".toList ++ (String.ofList rest).toList := String.toList_append
        -- the first characters differ
        have hfirst : 'm' :: _ = 'e' :: _ := htext.symm.trans (congrArg String.toList h)
        cases hfirst
  · rintro rfl
    rfl

theorem not_isLeaf_empty : ¬ IsLeaf "" := fun h => h.nonempty rfl

theorem read_eq_empty_iff : read cs = .error .empty ↔ ∃ f : Frame, cs = f.around [] := by
  rw [read_eq_error_iff]
  constructor
  · rintro ⟨f, rest, -, -, hcs, hfault⟩
    by_cases hrest : rest = ""
    · subst hrest
      exact ⟨f, hcs⟩
    · rw [if_neg hrest] at hfault
      cases hfault
  · rintro ⟨f, hcs⟩
    exact ⟨f, "", isCore_nil, not_isLeaf_empty, hcs, rfl⟩

end TypeText

namespace ValueType

open Lockstep.Text Lockstep.TypeText

/-- The texts of types are blanks, a leaf, a pair of brackets behind each of some gaps, and
blanks; such a text is read as that many array layers over the element that the leaf names.
All others are refused, and this with the text for an empty name exactly if there is nothing
but blanks and pairs of brackets. -/
theorem parse_grammar (s : String) :
    (∀ t, parse s = .ok t ↔ ∃ (f : Frame) (leaf : String) (element : ValueType), IsLeaf leaf ∧
      s.toList = f.around leaf.toList ∧ Names leaf element ∧ t = array^[f.layers] element) ∧
    ((∃ fault, parse s = .error fault) ↔
      ∀ (f : Frame) (leaf : String), IsLeaf leaf → s.toList ≠ f.around leaf.toList) ∧
    ((∃ fault, parse s = .error fault ∧ fault.message = "empty type name") ↔
      ∃ f : Frame, s.toList = f.around []) := by
  refine ⟨fun t => read_eq_ok_iff, ⟨?_, ?_⟩, ⟨?_, ?_⟩⟩
  · rintro ⟨fault, hfault⟩ f leaf hleaf hs
    obtain ⟨element, hnames⟩ := exists_names leaf
    have hread : parse s = .ok (array^[f.layers] element) :=
      read_eq_ok_iff.mpr ⟨f, leaf, element, hleaf, hs, hnames, rfl⟩
    rw [hread] at hfault
    cases hfault
  · intro hnone
    cases hread : parse s with
    | error fault => exact ⟨fault, rfl⟩
    | ok t =>
        obtain ⟨f, leaf, element, hleaf, hs, -⟩ := read_eq_ok_iff.mp hread
        exact absurd hs (hnone f leaf hleaf)
  · rintro ⟨fault, hfault, hmessage⟩
    rw [Fault.message_eq_iff.mp hmessage] at hfault
    exact read_eq_empty_iff.mp hfault
  · intro hframe
    exact ⟨.empty, read_eq_empty_iff.mpr hframe, rfl⟩

/-- Blanks may differ from gap to gap; brackets alone are refused as an empty name. -/
theorem parse_grammar_gaps :
    parse "\u3000String \t[]\u00a0[]\n" = .ok (.array (.array .string)) ∧
      ∃ fault, parse " [] []" = .error fault ∧ fault.message = "empty type name" := by
  have hblank : ∀ blanks : List Char, blanks.all isBlank = true → AllBlank blanks :=
    fun _ h => List.all_eq_true.mp h
  have hgaps : ∀ gaps : List (List Char), gaps.all (·.all isBlank) = true →
      ∀ gap ∈ gaps, AllBlank gap :=
    fun _ h gap hgap => hblank gap (List.all_eq_true.mp h gap hgap)
  constructor
  · refine ((parse_grammar _).1 _).mpr ⟨⟨['\u3000'], [[' ', '\t'], ['\u00a0']], ['\n'],
      hblank _ rfl, hgaps _ rfl, hblank _ rfl⟩, "String", _, ?_, rfl, .string, rfl⟩
    exact isLeaf_of_any_isForeign (by decide) rfl
  · exact (parse_grammar _).2.2.mpr
      ⟨⟨[' '], [[], [' ']], [], hblank _ rfl, hgaps _ rfl, hblank _ rfl⟩, rfl⟩

end ValueType

end Lockstep
