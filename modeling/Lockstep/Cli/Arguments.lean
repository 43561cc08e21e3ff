/-!
# Arguments of the command line

There are two commands: `replay` with a trace file and options, and `matrix`.
Options begin with two hyphens and may stand before or after the file; an option
with a value takes it from the same argument after an equals sign, or is the
next argument.  After a lone `--` every argument is a file.  No option may be
given twice, and arguments are taken in order, so that a request for help counts
only if nothing before it is wrong.
-/

namespace Lockstep.Cli

inductive OutputFormat where
  | human
  | json
  deriving DecidableEq, Repr

structure ReplayOptions where
  file : String
  config : Option String
  format : OutputFormat
  trace : Bool
  verify : Bool
  deriving DecidableEq, Repr

inductive Command where
  | replay (options : ReplayOptions)
  | matrix
  | help
  deriving DecidableEq, Repr

/-- The options of `replay` found so far. -/
structure Found where
  file : Option String
  config : Option String
  format : Option OutputFormat
  trace : Bool
  verify : Bool

def OutputFormat.ofName? (name : String) : Option OutputFormat :=
  if name = "human" then some .human
  else if name = "json" then some .json
  else none

/-- An argument that begins with a hyphen and is more than that. -/
def isOption (arg : String) : Bool :=
  match arg.toList with
  | '-' :: _ :: _ => true
  | _ => false

/-- An argument that begins with a hyphen and an `h`. -/
def isShortHelp (arg : String) : Bool :=
  match arg.toList with
  | '-' :: 'h' :: _ => true
  | _ => false

/-- The name of a long option with its hyphens, and the value in the same
argument. -/
def splitOption (arg : String) : String × Option String :=
  let name := arg.toList.takeWhile (· ≠ '=')
  match arg.toList.drop name.length with
  | '=' :: value => (String.ofList name, some (String.ofList value))
  | _ => (String.ofList name, none)

def Found.takeFile (f : Found) (arg : String) : Option Found :=
  if f.file.isSome ∨ arg.isEmpty then none else some { f with file := some arg }

/-- Takes the value of an option that has one. -/
def Found.takeValue (f : Found) (name value : String) : Option Found :=
  if name = "--config" then
    if f.config.isSome ∨ value.isEmpty then none else some { f with config := some value }
  else if f.format.isSome then none
  else (OutputFormat.ofName? value).map fun format => { f with format := some format }

def Found.takeFlag (f : Found) (name : String) : Option Found :=
  if name = "--trace" then if f.trace then none else some { f with trace := true }
  else if name = "--verify" then if f.verify then none else some { f with verify := true }
  else none

/-- The command that the options found amount to. -/
def Found.command (f : Found) : Option Command :=
  f.file.map fun file =>
    .replay ⟨file, f.config, f.format.getD .human, f.trace, f.verify⟩

/-- Reads the arguments of `replay`; after a lone `--` all are files. -/
def readReplay (onlyFiles : Bool) (f : Found) : List String → Option Command
  | [] => f.command
  | arg :: rest =>
    if onlyFiles ∨ ¬ isOption arg then
      match f.takeFile arg with
      | some f => readReplay onlyFiles f rest
      | none => none
    else if arg = "--" then readReplay true f rest
    else if arg = "--help" ∨ isShortHelp arg then some .help
    else
      match splitOption arg, rest with
      | (name, some value), rest =>
        if name = "--config" ∨ name = "--format" then
          match f.takeValue name value with
          | some f => readReplay onlyFiles f rest
          | none => none
        else none
      | (name, none), value :: rest =>
        if name = "--config" ∨ name = "--format" then
          if isOption value then none
          else
            match f.takeValue name value with
            | some f => readReplay onlyFiles f rest
            | none => none
        else
          match f.takeFlag name with
          | some f => readReplay onlyFiles f (value :: rest)
          | none => none
      | (name, none), [] =>
        match f.takeFlag name with
        | some f => f.command
        | none => none

/-- Reads the arguments of `matrix`, which takes none. -/
def readMatrix : List String → Option Command
  | [] | ["--"] => some .matrix
  | arg :: _ => if arg = "--help" ∨ isShortHelp arg then some .help else none

/-- Reads the arguments of `help`: at most one command. -/
def readHelp : List String → Option Command
  | [] => some .help
  | [arg] => if arg ∈ ["replay", "matrix", "help"] then some .help else none
  | _ => none

def readArguments : List String → Option Command
  | "replay" :: rest => readReplay false ⟨none, none, none, false, false⟩ rest
  | "matrix" :: rest => readMatrix rest
  | "help" :: rest => readHelp rest
  | arg :: _ => if arg = "--help" ∨ isShortHelp arg then some .help else none
  | [] => none

end Lockstep.Cli
