import Mathlib.Data.List.Nodup
import Lockstep.Proofs.Flow.Paths

/-!
# The rules for labels

A graph exists exactly when code is well labelled, and the defect reported
otherwise is the violation it says it is: a mark that repeats an earlier one
(`duplicate?_eq_some`), or a jump to a label that is marked nowhere
(`dangling?_eq_some`).
-/

namespace Lockstep.Flow

theorem marked?_eq_some_iff {i : Instr} {label : Label} :
    i.marked? = some label ↔ i = .mark label := by
  cases i <;> simp [Instr.marked?]

/-! ## Finding marks -/

theorem getElem?_of_markOf? {code : List Instr} {label : Label} {p : Nat}
    (h : markOf? code label = some p) : code[p]? = some (.mark label) := by
  obtain ⟨hp, hmarked, -⟩ := List.findIdx?_eq_some_iff_getElem.mp h
  rw [List.getElem?_eq_getElem hp]
  exact congrArg some (marked?_eq_some_iff.mp (of_decide_eq_true hmarked))

theorem markOf?_eq_none_iff {code : List Instr} {label : Label} :
    markOf? code label = none ↔ Instr.mark label ∉ code := by
  unfold markOf?
  rw [List.findIdx?_eq_none_iff]
  constructor
  · intro h hmem
    simpa [Instr.marked?] using h _ hmem
  · intro h i hi
    rw [decide_eq_false_iff_not, marked?_eq_some_iff]
    rintro rfl
    exact h hi

/-- Where labels are marked once, the first mark is the mark. -/
theorem markOf?_eq_some_iff {code : List Instr} (h : (code.filterMap Instr.marked?).Nodup)
    {label : Label} {p : Nat} : markOf? code label = some p ↔ code[p]? = some (.mark label) := by
  refine ⟨getElem?_of_markOf?, fun hp => ?_⟩
  cases hq : markOf? code label with
  | none => exact absurd (List.mem_of_getElem? hp) (markOf?_eq_none_iff.mp hq)
  | some q => rw [position_eq_of_nodup_marks h (getElem?_of_markOf? hq) hp]

/-! ## Labels marked twice -/

theorem duplicate?_eq_some {position : Nat} {seen : List Label} {is : List Instr} {p : Nat}
    {label : Label} (h : duplicate? position seen is = some (p, label)) :
    ∃ k, p = position + k ∧ is[k]? = some (.mark label) ∧
      (label ∈ seen ∨ ∃ j < k, is[j]? = some (.mark label)) := by
  induction is generalizing position seen with
  | nil => cases h
  | cons i rest ih =>
      rw [duplicate?] at h
      split at h
      · obtain ⟨k, rfl, hk, hbefore⟩ := ih h
        refine ⟨k + 1, by omega, hk, hbefore.imp_right ?_⟩
        rintro ⟨j, hj, hmark⟩
        exact ⟨j + 1, by omega, hmark⟩
      · next other hother =>
        rw [marked?_eq_some_iff] at hother
        split at h
        · next hseen =>
          obtain ⟨rfl, rfl⟩ : position = p ∧ other = label := by simpa using h
          exact ⟨0, rfl, congrArg some hother, .inl hseen⟩
        · obtain ⟨k, rfl, hk, hbefore⟩ := ih h
          refine ⟨k + 1, by omega, hk, ?_⟩
          rcases hbefore with hmem | ⟨j, hj, hmark⟩
          · rcases List.mem_cons.mp hmem with rfl | hmem
            · exact .inr ⟨0, Nat.succ_pos k, congrArg some hother⟩
            · exact .inl hmem
          · exact .inr ⟨j + 1, by omega, hmark⟩

theorem nodup_of_duplicate?_eq_none {position : Nat} {seen : List Label} {is : List Instr}
    (h : duplicate? position seen is = none) :
    (is.filterMap Instr.marked?).Nodup ∧ ∀ label ∈ seen, Instr.mark label ∉ is := by
  induction is generalizing position seen with
  | nil => exact ⟨List.nodup_nil, fun _ _ hmem => by cases hmem⟩
  | cons i rest ih =>
      rw [duplicate?] at h
      split at h
      · next hnone =>
        obtain ⟨hnodup, hseen⟩ := ih h
        rw [List.filterMap_cons_none hnone]
        refine ⟨hnodup, fun label hlabel hmem => ?_⟩
        rcases List.mem_cons.mp hmem with rfl | hmem
        · cases hnone
        · exact hseen label hlabel hmem
      · next other hother =>
        split at h
        · cases h
        · next hnew =>
          obtain ⟨hnodup, hseen⟩ := ih h
          rw [List.filterMap_cons_some hother, List.nodup_cons, mem_marks_iff]
          refine ⟨⟨hseen other List.mem_cons_self, hnodup⟩, fun label hlabel hmem => ?_⟩
          rcases List.mem_cons.mp hmem with rfl | hmem
          · obtain rfl : label = other := by simpa [Instr.marked?] using hother
            exact hnew hlabel
          · exact hseen label (List.mem_cons_of_mem _ hlabel) hmem

/-! ## Labels marked nowhere -/

theorem dangling?_eq_some {code is : List Instr} {position p : Nat} {label : Label}
    (h : dangling? code position is = some (p, label)) :
    ∃ k i, p = position + k ∧ is[k]? = some i ∧ i.target? = some label ∧
      Instr.mark label ∉ code := by
  induction is generalizing position with
  | nil => cases h
  | cons i rest ih =>
      rw [dangling?] at h
      split at h
      · obtain ⟨k, j, rfl, hk, hrest⟩ := ih h
        exact ⟨k + 1, j, by omega, hk, hrest⟩
      · next other hother =>
        split at h
        · next hnone =>
          obtain ⟨rfl, rfl⟩ : position = p ∧ other = label := by simpa using h
          exact ⟨0, i, rfl, rfl, hother, markOf?_eq_none_iff.mp (Option.isNone_iff_eq_none.mp hnone)⟩
        · obtain ⟨k, j, rfl, hk, hrest⟩ := ih h
          exact ⟨k + 1, j, by omega, hk, hrest⟩

theorem marked_of_dangling?_eq_none {code is : List Instr} {position : Nat}
    (h : dangling? code position is = none) :
    ∀ i ∈ is, ∀ label, i.target? = some label → Instr.mark label ∈ code := by
  induction is generalizing position with
  | nil => exact fun _ hi => by cases hi
  | cons i rest ih =>
      rw [dangling?] at h
      intro j hj label htarget
      split at h
      · next hnone =>
        rcases List.mem_cons.mp hj with rfl | hj
        · rw [hnone] at htarget
          cases htarget
        · exact ih h j hj label htarget
      · next other hother =>
        split at h
        · cases h
        · next hsome =>
          rcases List.mem_cons.mp hj with rfl | hj
          · obtain rfl : other = label := by simpa [hother] using htarget
            by_contra hmem
            rw [markOf?_eq_none_iff.mpr hmem] at hsome
            exact hsome rfl
          · exact ih h j hj label htarget

/-! ## When a graph exists -/

/-- The blocks that make up the graph of a piece of code. -/
def blocksOf (code : List Instr) : List Block :=
  (spans code).map fun (start, stop) => ⟨start, stop, successors code stop⟩

theorem ofCode_eq_ok {code : List Instr} {g : Graph} (h : Graph.ofCode code = .ok g) :
    WellLabelled code ∧ g = ⟨blocksOf code⟩ := by
  unfold Graph.ofCode at h
  split at h
  · cases h
  · next hduplicate =>
    split at h
    · cases h
    · next hdangling =>
      cases h
      exact ⟨⟨(nodup_of_duplicate?_eq_none hduplicate).1, marked_of_dangling?_eq_none hdangling⟩, rfl⟩

/-- The two ways in which labels can be wrong, each with its witness. -/
theorem ofCode_eq_error {code : List Instr} {d : Defect} (h : Graph.ofCode code = .error d) :
    (∃ p label, d = .duplicateLabel p label ∧ code[p]? = some (.mark label) ∧
      ∃ q < p, code[q]? = some (.mark label)) ∨
    ∃ p label i, d = .unknownLabel p label ∧ code[p]? = some i ∧ i.target? = some label ∧
      Instr.mark label ∉ code := by
  unfold Graph.ofCode at h
  split at h
  · next p label hduplicate =>
    cases h
    obtain ⟨k, rfl, hk, hseen | hbefore⟩ := duplicate?_eq_some hduplicate
    · cases hseen
    · rw [Nat.zero_add]
      exact .inl ⟨k, label, rfl, hk, hbefore⟩
  · split at h
    · next p label hdangling =>
      cases h
      obtain ⟨k, i, rfl, hk, htarget, hmem⟩ := dangling?_eq_some hdangling
      rw [Nat.zero_add]
      exact .inr ⟨k, label, i, rfl, hk, htarget, hmem⟩
    · cases h

theorem exists_graph_of_wellLabelled {code : List Instr} (h : WellLabelled code) :
    ∃ g, Graph.ofCode code = .ok g := by
  cases hgraph : Graph.ofCode code with
  | ok g => exact ⟨g, rfl⟩
  | error d =>
      exfalso
      rcases ofCode_eq_error hgraph with
        ⟨p, label, -, hp, q, hlt, hq⟩ | ⟨p, label, i, -, hp, htarget, hmem⟩
      · exact absurd (position_eq_of_nodup_marks h.distinct hq hp) (Nat.ne_of_lt hlt)
      · exact hmem (h.marked i (List.mem_of_getElem? hp) label htarget)

end Lockstep.Flow
