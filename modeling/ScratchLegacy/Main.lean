import ScratchLegacy.CommandLine.Run

/-!
# The command

The effects of a conversion on the files of the computer, and what the
command tells about arguments that are refused and runs that fail. Reports go
to the standard error stream.
-/

namespace ScratchLegacy.CommandLine

/-- The result of an effect, none when it fails. -/
def attempt? {α : Type} (effect : IO α) : IO (Option α) := do
  match ← effect.toBaseIO with
  | .ok a => pure (some a)
  | .error _ => pure none

/-- The full path of a file; a directory has none. -/
def regularFile? (path : String) : IO (Option String) := do
  match ← attempt? (IO.FS.realPath path) with
  | none => pure none
  | some full =>
    match ← attempt? full.metadata with
    | some info => pure (if info.type == .file then some full.toString else none)
    | none => pure none

instance : Disk IO where
  fullPath? path := regularFile? path
  read? path := attempt? (IO.FS.readBinFile path)
  write path bytes := do
    return (← attempt? (IO.FS.writeBinFile path bytes)).isSome
  makeDirectories path := do
    if path = "" then return true
    return (← attempt? (IO.FS.createDirAll path)).isSome
  report line := IO.eprintln line

/-- How the command is used. -/
def usage : String :=
  "\n".intercalate
    ["Usage: scratch-legacy [OPTIONS] <INPUT> [OUTPUT]",
     "",
     "Convert Scratch 3 (.sb3) projects to the legacy Scratch 2 (.sb2) format.",
     "",
     "Options:",
     "  --pen-layer <PNG>          Attach this image to the stage as its pen layer.",
     "  --emit-json <PATH>         Write the legacy project.json to this path.",
     "  --emit-ir <PATH>           Write the project as it stands in memory to this path.",
     "  --keep-unsupported-sounds  Store sounds the legacy player cannot decode.",
     "  -v, --verbose              Tell when the conversion is done.",
     "  -h, --help                 Print help."]

/-- What is told about arguments that are refused. -/
def UsageError.message : UsageError → String
  | unknown => "error: unexpected argument"
  | missingInput => "error: the input is missing"
  | missingValue | emptyValue => "error: an option or a path has no value"
  | repeated => "error: an option is given twice"
  | unexpectedValue => "error: an option takes no value"
  | help => usage

end ScratchLegacy.CommandLine

open ScratchLegacy ScratchLegacy.CommandLine in
/-- **The command.** -/
def main (arguments : List String) : IO UInt32 := do
  match Arguments.read arguments with
  | .error .help =>
    IO.println UsageError.help.message
    return 0
  | .error error =>
    IO.eprintln error.message
    return 2
  | .ok arguments =>
    match ← (run arguments : RunT IO Unit).run with
    | .ok _ =>
      if arguments.verbose then IO.eprintln s!"Converted '{arguments.input}'."
      return 0
    | .error failure =>
      IO.eprintln s!"Error: {failure.report.text Fault.description}"
      return 1
