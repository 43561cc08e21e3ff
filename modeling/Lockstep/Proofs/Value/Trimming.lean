import Lockstep.Text.Blank

/-!
# Trimming

A text is what is left of it when it is trimmed, with blanks around (`exists_trim`), and
trimming does not see the blanks that are put around a text (`trim_append_left`,
`trim_append_right`).
-/

namespace Lockstep

namespace Text

theorem trimStart_eq_self {cs : List Char} (h : ∀ c ∈ cs.head?, isBlank c = false) :
    trimStart cs = cs := by
  cases cs with
  | nil => rfl
  | cons c rest =>
      have hfirst : isBlank c = false := h c rfl
      simp [trimStart, hfirst]

/-- A text with nothing blank at its two ends is trimmed. -/
theorem trim_eq_self {cs : List Char} (hfirst : ∀ c ∈ cs.head?, isBlank c = false)
    (hlast : ∀ c ∈ cs.getLast?, isBlank c = false) : trim cs = cs := by
  have hreverse : trimStart cs.reverse = cs.reverse :=
    trimStart_eq_self (by rwa [List.head?_reverse])
  rw [trim, trimStart_eq_self hfirst, hreverse, List.reverse_reverse]

/-- A run of blank characters. -/
def AllBlank (cs : List Char) : Prop := ∀ c ∈ cs, isBlank c = true

theorem allBlank_nil : AllBlank [] := fun _ h => absurd h List.not_mem_nil

variable {blanks : List Char}

theorem trimStart_append_left (h : AllBlank blanks) (cs : List Char) :
    trimStart (blanks ++ cs) = trimStart cs := List.dropWhile_append_of_pos h

theorem trimStart_of_allBlank (h : AllBlank blanks) : trimStart blanks = [] := by
  have hdrop := trimStart_append_left h []
  rwa [List.append_nil] at hdrop

theorem exists_trimStart (cs : List Char) :
    ∃ blanks, AllBlank blanks ∧ cs = blanks ++ trimStart cs :=
  ⟨cs.takeWhile isBlank, List.all_eq_true.mp List.all_takeWhile,
    List.takeWhile_append_dropWhile.symm⟩

theorem trim_append_left (h : AllBlank blanks) (cs : List Char) :
    trim (blanks ++ cs) = trim cs := by
  rw [trim, trim, trimStart_append_left h]

theorem trim_append_right (h : AllBlank blanks) (cs : List Char) :
    trim (cs ++ blanks) = trim cs := by
  have hreverse : AllBlank blanks.reverse := by
    intro c hc
    exact h c (List.mem_reverse.mp hc)
  -- either all of it is blank, or the blanks at the end are what the second pass meets first
  have hfirst : trimStart (cs ++ blanks) =
      if (trimStart cs).isEmpty then trimStart blanks else trimStart cs ++ blanks :=
    List.dropWhile_append
  rw [trim, trim, hfirst]
  split
  · next hempty =>
    rw [trimStart_of_allBlank h, List.isEmpty_iff.mp hempty]
  · rw [List.reverse_append, trimStart_append_left hreverse]

/-- A text is what is left of it when it is trimmed, with blanks around. -/
theorem exists_trim (cs : List Char) :
    ∃ before after, AllBlank before ∧ AllBlank after ∧ cs = before ++ trim cs ++ after := by
  obtain ⟨before, hbefore, hfirst⟩ := exists_trimStart cs
  obtain ⟨after, hafter, hlast⟩ := exists_trimStart (trimStart cs).reverse
  refine ⟨before, after.reverse, hbefore, fun c hc => hafter c (List.mem_reverse.mp hc), ?_⟩
  calc cs = before ++ trimStart cs := hfirst
    _ = before ++ (trimStart cs).reverse.reverse := by rw [List.reverse_reverse]
    _ = before ++ (after ++ trimStart (trimStart cs).reverse).reverse := by rw [← hlast]
    _ = before ++ trim cs ++ after.reverse := by
      rw [List.reverse_append, trim, List.append_assoc]

theorem trim_trim (cs : List Char) : trim (trim cs) = trim cs := by
  obtain ⟨before, after, hbefore, hafter, heq⟩ := exists_trim cs
  calc trim (trim cs) = trim (before ++ trim cs ++ after) := by
        rw [trim_append_right hafter, trim_append_left hbefore]
    _ = trim cs := by rw [← heq]

theorem trim_trimStart (cs : List Char) : trim (trimStart cs) = trim cs := by
  obtain ⟨before, hbefore, heq⟩ := exists_trimStart cs
  calc trim (trimStart cs) = trim (before ++ trimStart cs) :=
        (trim_append_left hbefore _).symm
    _ = trim cs := by rw [← heq]

end Text

end Lockstep
