import Lockstep.Settings.Basic
import Lockstep.Toml.Reader
import Lockstep.Toml.Writer

/-!
# Settings in documents

Settings as a record with defaults: whatever a document leaves out is as in the
standard settings.  Settings are kept in TOML, and what is written is read back
as it was.
-/

namespace Lockstep

open Datum

/-- The support classes that a record names. -/
def Support.ofDatum? (d : Datum) : Option Support := do
  let fields ← d.toFields? ["type_transformation", "bytecode_adapter", "reference_class"]
  let standard := Support.standard
  return {
    typeTransformation :=
      ← optional fields "type_transformation" standard.typeTransformation toText?
    bytecodeAdapter := ← optional fields "bytecode_adapter" standard.bytecodeAdapter toText?
    referenceClass := ← optional fields "reference_class" standard.referenceClass toText? }

namespace Settings

def ofDatum? (d : Datum) : Option Settings := do
  let fields ← d.toFields? ["trace_emission", "runtime"]
  return {
    traceEmission := ← optional fields "trace_emission" false toBool?
    support := ← optional fields "runtime" .standard Support.ofDatum? }

def read (s : String) : Option Settings := (Toml.read s).bind ofDatum?

def write (s : Settings) : String :=
  "trace_emission = " ++ (if s.traceEmission then "true" else "false") ++
    "\n\n[runtime]\ntype_transformation = " ++ Toml.quote s.support.typeTransformation ++
    "\nbytecode_adapter = " ++ Toml.quote s.support.bytecodeAdapter ++
    "\nreference_class = " ++ Toml.quote s.support.referenceClass ++ "\n"

end Settings

end Lockstep
