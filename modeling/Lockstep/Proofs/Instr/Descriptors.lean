import Mathlib
import Lockstep.Instr.Basic
import Lockstep.Proofs.Value.Grammar

/-!
# Reading method descriptors

The descriptor of a method has the descriptors of its parameters one after the other, with
nothing between them.  They can be told apart all the same: where one ends is seen from what
was read of it, whatever follows (`readDescriptor_append`).  So a method descriptor is read from
left to right, and gives the parameters and the result back (`readSignature?_descriptor`).

A class is read back by its name if the name has no semicolon, which ends it, and no slash,
which a dot is written as (`ValueType.IsDescribable`).  The boxes need no exception: a class with
the name of one is the box, and so it is when it is read.
-/

namespace Lockstep

namespace ValueType

variable {t u : ValueType} {text rest after : List Char}

/-! ## Descriptors of types -/

/-- A type whose class, at any depth of arrays, is made from its name, and the name has neither
a semicolon nor a slash. -/
inductive IsDescribable : ValueType → Prop
  | primitive (kind : Prim) : IsDescribable (.primitive kind)
  | className {name : String} (hsemicolon : ';' ∉ name.toList) (hslash : '/' ∉ name.toList) :
      IsDescribable (.ofClassName name)
  | array {component : ValueType} (h : IsDescribable component) : IsDescribable (.array component)

theorem ofClassName_boxName (kind : Prim) : ofClassName kind.boxName = .boxed kind := by
  rw [ofClassName, Prim.ofBoxName?_eq_some_iff.mpr rfl]

theorem isDescribable_boxed (kind : Prim) : (boxed kind).IsDescribable := by
  rw [← ofClassName_boxName]
  apply IsDescribable.className
  · cases kind <;> decide
  · cases kind <;> decide

/-- A name with dots in the place of slashes. -/
def dotted (cs : List Char) : String := String.ofList (cs.map fun c => if c = '/' then '.' else c)

/-- Reads the descriptor that a text begins with, and leaves what follows it. -/
def readDescriptor : List Char → Option (ValueType × List Char)
  | [] => none
  | '[' :: rest => (readDescriptor rest).map fun (t, after) => (.array t, after)
  | 'L' :: rest =>
    match rest.dropWhile (· ≠ ';') with
    | _ :: after => some (.ofClassName (dotted (rest.takeWhile (· ≠ ';'))), after)
    | [] => none
  | c :: rest => (Prim.all.find? (·.letter = c)).map fun kind => (.primitive kind, rest)

theorem length_lt_of_readDescriptor (h : readDescriptor text = some (t, after)) :
    after.length < text.length := by
  fun_induction readDescriptor text generalizing t with
  | case1 => cases h
  | case2 rest ih =>
      obtain ⟨⟨u, after'⟩, hread, heq⟩ := Option.map_eq_some_iff.mp h
      cases heq
      exact Nat.lt_succ_of_lt (ih hread)
  | case3 rest c after' hdrop =>
      cases h
      have hlength : (c :: after).length ≤ rest.length :=
        hdrop ▸ (List.dropWhile_suffix _).length_le
      exact Nat.lt_succ_of_lt hlength
  | case4 => cases h
  | case5 c rest =>
      obtain ⟨kind, -, heq⟩ := Option.map_eq_some_iff.mp h
      cases heq
      exact Nat.lt_succ_self _

/-- The descriptor of a class made from its name, a box or not. -/
theorem toList_descriptor_ofClassName (name : String) :
    (ofClassName name).descriptor.toList = 'L' :: (slashed name).toList ++ [';'] := by
  have hlist : ∀ s : String, ("L" ++ s ++ ";").toList = 'L' :: s.toList ++ [';'] := fun s => by
    simp
  unfold ofClassName
  split
  · next kind hkind =>
    rw [Prim.ofBoxName?_eq_some_iff.mp hkind]
    exact hlist _
  · exact hlist _

/-- Dots are written as slashes, and slashes are read as dots. -/
theorem dotted_slashed {name : String} (h : '/' ∉ name.toList) :
    dotted (slashed name).toList = name := by
  have hmap : (slashed name).toList.map (fun c => if c = '/' then '.' else c) = name.toList := by
    rw [slashed, String.toList_map, List.map_map]
    conv_rhs => rw [← List.map_id name.toList]
    apply List.map_congr_left
    intro c hc
    have hne : c ≠ '/' := fun heq => h (heq ▸ hc)
    by_cases hdot : c = '.'
    · simp [hdot]
    · simp [hdot, hne]
  rw [dotted, hmap, String.ofList_toList]

theorem semicolon_not_mem_slashed {name : String} (h : ';' ∉ name.toList) :
    ';' ∉ (slashed name).toList := by
  rw [slashed, String.toList_map, List.mem_map]
  rintro ⟨c, hc, heq⟩
  split at heq
  · cases heq
  · exact h (heq ▸ hc)

/-- The name of a class ends at the first semicolon. -/
theorem readDescriptor_class {cs : List Char} (h : ';' ∉ cs) (rest : List Char) :
    readDescriptor ('L' :: (cs ++ ';' :: rest)) = some (.ofClassName (dotted cs), rest) := by
  have hname : ∀ c ∈ cs, decide (c ≠ ';') = true := by
    intro c hc
    exact decide_eq_true fun heq => h (heq ▸ hc)
  have htake : (cs ++ ';' :: rest).takeWhile (· ≠ ';') = cs := by
    rw [List.takeWhile_append_of_pos hname]
    simp
  have hdrop : (cs ++ ';' :: rest).dropWhile (· ≠ ';') = ';' :: rest := by
    rw [List.dropWhile_append_of_pos hname]
    simp
  rw [readDescriptor, hdrop, htake]

/-- A descriptor is read back with anything behind it. -/
theorem readDescriptor_append (h : t.IsDescribable) (rest : List Char) :
    readDescriptor (t.descriptor.toList ++ rest) = some (t, rest) := by
  induction h with
  | primitive kind => cases kind <;> rfl
  | @className name hsemicolon hslash =>
      rw [toList_descriptor_ofClassName, List.append_assoc, List.singleton_append,
        List.cons_append, readDescriptor_class (semicolon_not_mem_slashed hsemicolon),
        dotted_slashed hslash]
  | @array component h ih =>
      have htext : (ValueType.array component).descriptor.toList ++ rest =
          '[' :: (component.descriptor.toList ++ rest) := by
        simp [descriptor]
      rw [htext, readDescriptor, ih]
      rfl

/-- No descriptor continues another. -/
theorem eq_of_isPrefix (ht : t.IsDescribable) (hu : u.IsDescribable)
    (h : t.descriptor.toList <+: u.descriptor.toList) : t = u := by
  obtain ⟨rest, hrest⟩ := h
  have hread := readDescriptor_append ht rest
  have hread' := readDescriptor_append hu []
  rw [List.append_nil, ← hrest, hread] at hread'
  exact (Prod.mk.inj (Option.some.inj hread')).1

/-- The slots of a type by its descriptor: two for `J` and `D`, and one for any other. -/
def letterSlots (t : ValueType) : Nat :=
  if t.descriptor = "J" ∨ t.descriptor = "D" then 2 else 1

theorem letterSlots_eq_slots (t : ValueType) : t.letterSlots = t.slots := by
  have hone : ∀ c : Char, c ≠ 'J' → c ≠ 'D' → t.descriptor.toList.head? = some c →
      t.letterSlots = 1 := by
    intro c hlong hdouble hhead
    apply if_neg
    rintro (h | h)
    · rw [h] at hhead
      exact hlong (Option.some.inj hhead).symm
    · rw [h] at hhead
      exact hdouble (Option.some.inj hhead).symm
  cases t with
  | primitive kind => cases kind <;> rfl
  | boxed kind => exact hone 'L' (by decide) (by decide) (by simp [descriptor])
  | named name => exact hone 'L' (by decide) (by decide) (by simp [descriptor])
  | array component => exact hone '[' (by decide) (by decide) (by simp [descriptor])

end ValueType

namespace Method

open ValueType

variable {m m' : Method} {params : List ValueType}

/-! ## Descriptors of methods -/

/-- A method all whose types can be read back. -/
structure IsDescribable (m : Method) : Prop where
  params : ∀ t ∈ m.params, t.IsDescribable
  result : ∀ t ∈ m.result, t.IsDescribable

/-- Reads descriptors one after the other up to the closing parenthesis, and leaves what follows
it. -/
def readParams (text : List Char) : Option (List ValueType × List Char) :=
  match _h : readDescriptor text with
  | some (t, after) => (readParams after).map fun (params, rest) => (t :: params, rest)
  | none =>
    match text with
    | ')' :: rest => some ([], rest)
    | _ => none
termination_by text.length
decreasing_by exact length_lt_of_readDescriptor _h

/-- Reads one descriptor that nothing follows, or a `V`. -/
def readResult? (text : List Char) : Option (Option ValueType) :=
  if text = ['V'] then some none
  else
    match readDescriptor text with
    | some (t, []) => some (some t)
    | _ => none

/-- Reads the parameters and the result of a method from its descriptor. -/
def readSignature? (text : String) : Option (List ValueType × Option ValueType) :=
  match text.toList with
  | '(' :: cs => do
    let (params, rest) ← readParams cs
    let result ← readResult? rest
    return (params, result)
  | _ => none

/-- The effect of a call as its descriptor tells it: it pops the parameters and, if it is not
static, the receiver, and pushes the result. -/
def readEffect? (dispatch : Dispatch) (text : String) : Option Effect :=
  (readSignature? text).map fun (params, result) =>
    ⟨(if dispatch = .static then 0 else 1) + (params.map letterSlots).sum,
      (result.map letterSlots).getD 0⟩

theorem readParams_of_readDescriptor {text after : List Char} {t : ValueType}
    (h : readDescriptor text = some (t, after)) :
    readParams text = (readParams after).map fun (params, rest) => (t :: params, rest) := by
  rw [readParams]
  split
  · next u after' hread =>
    rw [h] at hread
    cases hread
    rfl
  · next hread =>
    rw [h] at hread
    cases hread

/-- Parameters are read back with the parenthesis and anything behind it. -/
theorem readParams_append (h : ∀ t ∈ params, t.IsDescribable) (rest : List Char) :
    readParams (params.flatMap (·.descriptor.toList) ++ ')' :: rest) = some (params, rest) := by
  induction params with
  | nil =>
      rw [readParams]
      rfl
  | cons t params ih =>
      rw [List.flatMap_cons, List.append_assoc,
        readParams_of_readDescriptor (readDescriptor_append (h t List.mem_cons_self) _),
        ih fun u hu => h u (List.mem_cons_of_mem t hu)]
      rfl

theorem readResult?_descriptor {result : Option ValueType} (h : ∀ t ∈ result, t.IsDescribable) :
    readResult? ((result.map ValueType.descriptor).getD "V").toList = some result := by
  cases result with
  | none => rfl
  | some t =>
      have hread := readDescriptor_append (h t rfl) []
      rw [List.append_nil] at hread
      have hvoid : t.descriptor.toList ≠ ['V'] := by
        intro htext
        rw [htext] at hread
        cases hread
      rw [Option.map_some, Option.getD_some, readResult?, if_neg hvoid, hread]

/-- The parameters and the result are read back from the descriptor of a method. -/
theorem readSignature?_descriptor (h : m.IsDescribable) :
    readSignature? m.descriptor = some (m.params, m.result) := by
  have htext : m.descriptor.toList = '(' :: (m.params.flatMap (·.descriptor.toList) ++
      ')' :: ((m.result.map ValueType.descriptor).getD "V").toList) := by
    simp [descriptor, String.toList_join, List.flatMap_map]
  rw [readSignature?, htext]
  simp [readParams_append h.params, readResult?_descriptor h.result]

theorem sum_letterSlots (params : List ValueType) :
    (params.map letterSlots).sum = totalSlots params := by
  induction params with
  | nil => rfl
  | cons t params ih => rw [List.map_cons, List.sum_cons, letterSlots_eq_slots, ih, totalSlots]

/-- The effect that is read from the descriptor of a method is the effect of its call. -/
theorem readEffect?_descriptor (h : m.IsDescribable) :
    readEffect? m.dispatch m.descriptor = some (Instr.invoke m).effect := by
  have hpops : (if m.dispatch = .static then 0 else 1) + (m.params.map letterSlots).sum =
      m.argumentSlots := by
    rw [sum_letterSlots, argumentSlots]
  have hpushes : (m.result.map letterSlots).getD 0 = m.resultSlots := by
    rw [funext letterSlots_eq_slots, resultSlots]
  calc readEffect? m.dispatch m.descriptor
      = some ⟨(if m.dispatch = .static then 0 else 1) + (m.params.map letterSlots).sum,
          (m.result.map letterSlots).getD 0⟩ := by
        rw [readEffect?, readSignature?_descriptor h]
        rfl
    _ = some ⟨m.argumentSlots, m.resultSlots⟩ := by rw [hpops, hpushes]
    _ = some (Instr.invoke m).effect := rfl

/-- A descriptor has only one list of parameters and only one result. -/
theorem eq_of_descriptor_eq (h : m.IsDescribable) (h' : m'.IsDescribable)
    (heq : m.descriptor = m'.descriptor) : m.params = m'.params ∧ m.result = m'.result := by
  have hread := readSignature?_descriptor h
  rw [heq, readSignature?_descriptor h'] at hread
  have hpair : (m'.params, m'.result) = (m.params, m.result) := Option.some.inj hread
  exact ⟨(Prod.mk.inj hpair).1.symm, (Prod.mk.inj hpair).2.symm⟩

/-- No descriptor of a type continues another.  So the descriptors of two methods are equal only
if their parameters are and their results are, reading the descriptor of a method from left to
right gives its parameters and its result, and the slots counted there are the effect of a
call. -/
theorem descriptor_decodable :
    (∀ t u : ValueType, t.IsDescribable → u.IsDescribable →
      t.descriptor.toList <+: u.descriptor.toList → t = u) ∧
    ∀ m : Method, m.IsDescribable →
      (∀ m' : Method, m'.IsDescribable → m.descriptor = m'.descriptor →
        m.params = m'.params ∧ m.result = m'.result) ∧
      readSignature? m.descriptor = some (m.params, m.result) ∧
      readEffect? m.dispatch m.descriptor = some (Instr.invoke m).effect := by
  refine ⟨fun t u => eq_of_isPrefix, fun m h => ⟨fun m' => eq_of_descriptor_eq h, ?_, ?_⟩⟩
  · exact readSignature?_descriptor h
  · exact readEffect?_descriptor h

/-- A method with a primitive of two slots, an array and a box among its parameters. -/
def formatMethod (dispatch : Dispatch) (owner : String) : Method where
  dispatch := dispatch
  owner := owner
  name := "format"
  params := [.primitive .long, .array .string, .boxed .int]
  result := some (.primitive .double)

theorem isDescribable_formatMethod (dispatch : Dispatch) (owner : String) :
    (formatMethod dispatch owner).IsDescribable := by
  have hstring : (ofClassName ClassName.string).IsDescribable := .className (by decide) (by decide)
  constructor
  · intro t ht
    simp only [formatMethod, List.mem_cons, List.not_mem_nil, or_false] at ht
    rcases ht with rfl | rfl | rfl
    · exact .primitive .long
    · exact .array hstring
    · exact isDescribable_boxed .int
  · rintro t ⟨⟩
    exact .primitive .double

theorem descriptor_decodable_formatMethod :
    let m := formatMethod .virtual "demo/Text"
    let m' := formatMethod .static "demo/Numbers"
    (m.IsDescribable ∧ m'.IsDescribable ∧ m.descriptor = m'.descriptor ∧
      m.params = m'.params ∧ m.result = m'.result) ∧
    ((ofClassName (Prim.boxName .int)).descriptor.toList <+: (boxed .int).descriptor.toList ∧
      ofClassName (Prim.boxName .int) = .boxed .int) ∧
    readSignature? m.descriptor = some (m.params, m.result) ∧
    readEffect? .virtual m.descriptor = some ⟨5, 2⟩ := by
  intro m m'
  have h := isDescribable_formatMethod .virtual "demo/Text"
  have h' := isDescribable_formatMethod .static "demo/Numbers"
  have hbox : (ofClassName (Prim.boxName .int)).IsDescribable := .className (by decide) (by decide)
  have hbegins : (ofClassName (Prim.boxName .int)).descriptor.toList <+:
      (boxed .int).descriptor.toList := by
    simp [ofClassName_boxName]
  obtain ⟨heq, hsignature, heffect⟩ := descriptor_decodable.2 m h
  refine ⟨⟨h, h', rfl, heq m' h' rfl⟩, ⟨hbegins, ?_⟩, hsignature, heffect⟩
  exact descriptor_decodable.1 _ _ hbox (isDescribable_boxed .int) hbegins

end Method

end Lockstep
