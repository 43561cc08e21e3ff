import Lockstep.Json.Reader
import Lockstep.Toml.Reader
import Lockstep.Trace.Document

/-!
# Trace files

The name of a file decides the format of the trace in it: TOML if its extension
is exactly `toml`, and JSON otherwise.
-/

namespace Lockstep.Trace

/-- The last component of a path, without the separators after it. -/
def fileName (path : List Char) : List Char :=
  let parts := path.splitOn '/'
  ((parts.filter fun part => part ≠ [] ∧ part ≠ ['.']).getLast?).getD []

/-- The extension of a file name: what follows its last dot, unless that is its
first character. -/
def extension? (name : List Char) : Option (List Char) :=
  let back := name.reverse
  let suffix := back.takeWhile (· ≠ '.')
  match back.drop suffix.length with
  | '.' :: _ :: _ => if name = ['.', '.'] then none else some suffix.reverse
  | _ => none

/-- Whether a file of a given name holds TOML. -/
def isToml (path : String) : Bool :=
  extension? (fileName path.toList) = some ['t', 'o', 'm', 'l']

/-- The trace in a file with a given name and content. -/
def read (path content : String) : Option Trace :=
  (if isToml path then Toml.read content else Json.read content).bind ofDatum?

end Lockstep.Trace
