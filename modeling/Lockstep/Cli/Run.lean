import Lockstep.Cli.Arguments
import Lockstep.Json.Writer
import Lockstep.Settings.Document
import Lockstep.Trace.File
import Lockstep.Trace.Replay

/-!
# Running a command line

A command line as a function from its arguments and the files it names to what
it prints and the status it ends with: 0 when all is well, 1 when a command
fails, 2 when the arguments are rejected.
-/

namespace Lockstep

def Report.toDatum (r : Report) : Datum :=
  .object
    [("code", .array (r.code.map .text)), ("stack", .array (r.stack.map .text)),
     ("logical_depth", .int r.logicalDepth), ("slot_depth", .int r.slotDepth)]

namespace Cli

/-- What a run prints and logs, and the status it ends with. -/
structure Outcome where
  status : Nat
  output : String
  errors : String
  log : List Note

/-- The content of a file, or the reason why it cannot be read. -/
abbrev Files := String → Except String String

inductive CommandFault where
  /-- A file cannot be read. -/
  | unreadFile (file reason : String)
  /-- The settings make no sense. -/
  | badSettings
  /-- A trace makes no sense. -/
  | badTrace (file : String)
  /-- Verification was asked for where code and model cannot agree. -/
  | unverifiable
  /-- A step failed. -/
  | step (failure : StepFailure)
  /-- The code has a defect. -/
  | defect (d : Flow.Defect)
  /-- The code leaves another height than the model. -/
  | drift (code model : Nat)

def CommandFault.message : CommandFault → String
  | .unreadFile file reason => "failed to read " ++ file ++ ": " ++ reason
  | .badSettings => "failed to parse config"
  | .badTrace file => "failed to parse " ++ file
  | .unverifiable => "--verify needs a trace without push, remove or replace steps"
  | .step failure => failure.message
  | .defect d => "verification failed: " ++ d.message
  | .drift code model =>
    "verification failed: code leaves " ++ toString code ++ " slots, model holds " ++
      toString model

/-! ## Loading -/

def open? (files : Files) (file : String) : Except CommandFault String :=
  (files file).mapError (.unreadFile file)

def loadSettings (files : Files) (file : String) : Except CommandFault Settings := do
  match Settings.read (← open? files file) with
  | some settings => return settings
  | none => throw .badSettings

def loadTrace (files : Files) (file : String) : Except CommandFault Trace := do
  match Trace.read file (← open? files file) with
  | some trace => return trace
  | none => throw (.badTrace file)

/-! ## Commands -/

/-- The report of a replay as it is printed. -/
def printReport (options : ReplayOptions) (trace : Trace) (s : State) : String :=
  match options.format with
  | .json => Json.writePretty s.report.toDatum ++ "\n"
  | .human =>
    listing (Trace.orElse trace.callable "trace") s.code.toList ++
      stackText s.bottomUp ++ "\nslots: " ++ toString s.slots ++ "\n" ++
      (if options.verify then "verified\n" else "")

/-- Loads the settings and the trace that a replay is asked for. -/
def prepare (files : Files) (options : ReplayOptions) :
    Except CommandFault (Settings × Trace) := do
  let settings ←
    match options.config with
    | some file => loadSettings files file
    | none => pure .standard
  let trace ← loadTrace files options.file
  if options.verify && trace.hasModelOnlySteps then throw .unverifiable
  return ({ settings with traceEmission := settings.traceEmission || options.trace }, trace)

/-- What is printed after a replay that got to its end. -/
def conclude (options : ReplayOptions) (trace : Trace) (s : State) :
    Except CommandFault String := do
  if options.verify then
    match s.verify with
    | .error d => throw (.defect d)
    | .ok height => if height ≠ s.slots then throw (.drift height s.slots)
  return printReport options trace s

/-- Whether a note is shown: warnings always, and emitted instructions on
request. -/
def isShown (options : ReplayOptions) : Note → Bool
  | .emitted .. => options.trace
  | n => n.level = .warn

/-- Replays a trace, and gives the log and what is printed. -/
def runReplay (files : Files) (options : ReplayOptions) :
    List Note × Except CommandFault String :=
  match prepare files options with
  | .error fault => ([], .error fault)
  | .ok (settings, trace) =>
    let (result, s) := trace.replay settings
    let log := s.notes.toList.filter (isShown options)
    match result with
    | .error failure => (log, .error (.step failure))
    | .ok () => (log, conclude options trace s)

/-- A text brought to a width of seven by blanks. -/
def padding (s : String) : String := String.ofList (List.replicate (7 - s.length) ' ')

/-- What the matrix says about two kinds. -/
def conversionText (source target : Prim) : String :=
  match source.conversion? target with
  | none => "box + runtime cast"
  | some [] => "(none)"
  | some ops => " ".intercalate (ops.map NumOp.name)

/-- The matrix of the numeric conversions. -/
def matrix : String :=
  String.join <| Prim.all.flatMap fun source =>
    (Prim.all.filter (· ≠ source)).map fun target =>
      padding source.keyword ++ source.keyword ++ " -> " ++ target.keyword ++
        padding target.keyword ++ " " ++ conversionText source target ++ "\n"

def usage : String :=
  "Operand stack simulator for a JVM code generator\n\n" ++
    "Usage: lockstep <COMMAND>\n\nCommands:\n" ++
    "  replay  Replay a trace of stack operations and print the emitted code\n" ++
    "  matrix  Print the numeric conversion matrix\n" ++
    "  help    Print this message or the help of the given subcommand(s)\n\n" ++
    "Options of replay:\n" ++
    "      --config <FILE>    Code generation config (TOML)\n" ++
    "      --format <FORMAT>  Output format (human or json)\n" ++
    "      --trace            Log every emitted instruction\n" ++
    "      --verify           Check the emitted code's slot heights against the final model\n" ++
    "  -h, --help             Print help\n"

def run (files : Files) (arguments : List String) : Outcome :=
  match readArguments arguments with
  | none => ⟨2, "", usage, []⟩
  | some .help => ⟨0, usage, "", []⟩
  | some .matrix => ⟨0, matrix, "", []⟩
  | some (.replay options) =>
    match runReplay files options with
    | (log, .ok output) => ⟨0, output, "", log⟩
    | (log, .error fault) => ⟨1, "", "error: " ++ fault.message ++ "\n", log⟩

end Cli

end Lockstep
