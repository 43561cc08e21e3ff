/-!
# Scanning

Small scanners over the characters of a text.  A scanner gives a result and what
is left of the text, or fails; where two are tried in turn, the second starts
where the first did.
-/

namespace Lockstep.Toml

abbrev Scan := StateT (List Char) Option

namespace Scan

/-- The next character, if it satisfies a test. -/
def satisfy (test : Char → Bool) : Scan Char := fun cs =>
  match cs with
  | c :: rest => if test c then some (c, rest) else none
  | [] => none

def char (c : Char) : Scan Unit := do
  let _ ← satisfy (· = c)

def word : List Char → Scan Unit
  | [] => pure ()
  | c :: rest => do
    char c
    word rest

/-- As many characters as satisfy a test. -/
def run (test : Char → Bool) : Scan (List Char) := fun cs => some (cs.span test)

/-- At least one character that satisfies a test, and as many as do. -/
def someRun (test : Char → Bool) : Scan (List Char) := do
  let cs ← run test
  if cs.isEmpty then failure
  return cs

/-- A number of characters that satisfy a test. -/
def exactly (test : Char → Bool) : Nat → Scan (List Char)
  | 0 => pure []
  | n + 1 => do
    let c ← satisfy test
    let rest ← exactly test n
    return c :: rest

/-- The next characters without taking them. -/
def ahead : Scan (List Char) := get

def atEnd : Scan Unit := do
  if ¬ (← ahead).isEmpty then failure

/-- What a scanner gives, or nothing where it fails. -/
def opt {α : Type} (p : Scan α) : Scan (Option α) := (some <$> p) <|> pure none

/-- What a scanner gives, time after time up to a number of times. -/
def times {α : Type} (p : Scan α) : Nat → Scan (List α)
  | 0 => pure []
  | n + 1 => (do
    let a ← p
    let rest ← times p n
    return a :: rest) <|> pure []

/-- What a scanner gives time after time, as often as it succeeds; the scanner
has to take at least one character. -/
def many {α : Type} (p : Scan α) : Scan (List α) := do
  times p (← ahead).length

/-- What a scanner gives one or more times with a separator in between. -/
def separated {α : Type} (p : Scan α) (separator : Scan Unit) : Scan (List α) := do
  let first ← p
  let rest ← many (do
    separator
    p)
  return first :: rest

end Scan

end Lockstep.Toml
