import Lockstep.Text.Quoted

/-!
# Writing TOML strings

A string in the plainest form that can hold it: basic if nothing in it needs an
escape, literal if only backslashes or double quotes stand against that, over
several lines if it has line ends or both kinds of quotes, and escaped where
controls leave no other form.
-/

namespace Lockstep.Toml

/-- The length of the longest run of a character. -/
def longestRun (c : Char) (cs : List Char) : Nat :=
  let step : Nat × Nat → Char → Nat × Nat := fun (current, longest) d =>
    if d = c then (current + 1, max longest (current + 1)) else (0, longest)
  (cs.foldl step (0, 0)).2

/-- A character that no string holds as itself. -/
def isControl (c : Char) : Bool :=
  (c.toNat < 0x20 && c ≠ '\t' && c ≠ '\n') || c.toNat = 0x7F

/-- A character between double quotes; line ends are escaped only on request. -/
def escapeChar (lineEnds : Bool) (c : Char) : List Char :=
  if c = '"' then ['\\', '"']
  else if c = '\\' then ['\\', '\\']
  else if c = '\n' then if lineEnds then ['\\', 'n'] else [c]
  else if isControl c then
    ['\\', 'u'] ++ Text.padZeros 4 (Text.hexadecimal c.toNat)
  else [c]

/-- A string as it is written after an equals sign. -/
def quote (s : String) : String :=
  let cs := s.toList
  let plain := !cs.any isControl
  let backslash := cs.any (· = '\\')
  let broken := cs.any (· = '\n')
  let doubles := longestRun '"' cs
  let singles := longestRun '\'' cs
  let lead := if broken then ['\n'] else []
  let between (quotes : Nat) (c : Char) (body : List Char) : String :=
    String.ofList (List.replicate quotes c ++ body ++ List.replicate quotes c)
  if plain && !backslash && doubles = 0 && !broken then between 1 '"' cs
  else if plain && singles = 0 && !broken then between 1 '\'' cs
  else if plain && !backslash && doubles ≤ 2 then between 3 '"' (lead ++ cs)
  else if plain && singles ≤ 2 then between 3 '\'' (lead ++ cs)
  else if broken then between 3 '"' (lead ++ cs.flatMap (escapeChar false))
  else between 1 '"' (cs.flatMap (escapeChar true))

end Lockstep.Toml
