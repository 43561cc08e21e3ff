/-!
# Blank characters

A character is blank when it has the Unicode property White_Space: twenty-five
characters in ten runs.  The table is closed under what one might expect and
no wider: U+180E, the zero-width characters and the separators below U+0020
other than tab to carriage return are not blank.

`trim` drops the blank characters at both ends of a text; it never makes a
text longer, which is what the readers that trim and recurse rest on.
-/

namespace Lockstep.Text

/-- Whether a character lies in one of a list of runs of code points, each
given by its first and last member. -/
def inRuns (runs : List (Nat × Nat)) (c : Char) : Bool :=
  runs.any fun run => run.1 ≤ c.toNat && c.toNat ≤ run.2

/-- The runs of the Unicode property White_Space. -/
def blankRuns : List (Nat × Nat) :=
  [(0x09, 0x0D), (0x20, 0x20), (0x85, 0x85), (0xA0, 0xA0), (0x1680, 0x1680),
   (0x2000, 0x200A), (0x2028, 0x2029), (0x202F, 0x202F), (0x205F, 0x205F),
   (0x3000, 0x3000)]

/-- A character with the property White_Space. -/
def isBlank (c : Char) : Bool := inRuns blankRuns c

/-- A text without the blank characters at its start. -/
def trimStart (cs : List Char) : List Char := cs.dropWhile isBlank

/-- A text without the blank characters at its two ends. -/
def trim (cs : List Char) : List Char :=
  (trimStart (trimStart cs).reverse).reverse

theorem length_trimStart_le (cs : List Char) :
    (trimStart cs).length ≤ cs.length :=
  (List.dropWhile_suffix isBlank).length_le

theorem length_trim_le (cs : List Char) : (trim cs).length ≤ cs.length := by
  have inner := length_trimStart_le cs
  have outer := length_trimStart_le (trimStart cs).reverse
  simp only [trim, List.length_reverse] at outer ⊢
  omega

end Lockstep.Text
