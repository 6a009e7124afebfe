/-
Runs — what a command does.

A command is a function of the disk.  It leaves a disk, prints something, and ends
with a status.  Nothing it does happens in between.
-/
import StyleTypings.Command.Generate
import StyleTypings.Command.Report
import StyleTypings.Settings.Printer

namespace StyleTypings

/-- How a command ends. -/
inductive ExitStatus where
  | success
  /-- Files could not be processed, or are not as they should be. -/
  | failure
  /-- The command could not begin, or could not do its one task. -/
  | error
deriving DecidableEq, Repr

/-- The number of a status. -/
def ExitStatus.code : ExitStatus → Nat
  | .success => 0
  | .failure => 1
  | .error => 2

/-- What a command has done. -/
structure Effect where
  disk : Disk
  printed : Printed
  status : ExitStatus

namespace Effect

/-- An error, with the disk as it is by then. -/
def ofError (color : Bool) (disk : Disk) (message : Text) : Effect :=
  ⟨disk, .errLine (Report.errorLine color message), .error⟩

/-! ## Commands -/

/-- Declarations written or checked.  What is to be said about the scan is said before
anything about the files. -/
def generate (color : Bool) (disk : Disk) (a : GenerateArguments) (device : Device := .whole) :
    Effect :=
  match Generation.ofArguments disk a with
  | .error e => .ofError color disk e.message
  | .ok g =>
    let (summary, after) := g.run disk device
    let printed :=
      Report.notices color a.verbose (g.scan disk).notices ++ Report.summary color a.verbose summary
    ⟨after, printed, if summary.succeeds then .success else .failure⟩

/-- The settings file with the settings that hold without it, made in the working
directory unless there is one. -/
def init (color : Bool) (disk : Disk) (device : Device := .whole) : Effect :=
  let file : Path := ⟨false, [Settings.fileName]⟩
  if disk.contains file then ⟨disk, Report.settingsFile color false, .failure⟩
  else
    match disk.write file Settings.default.print device with
    | (.ok (), after) => ⟨after, Report.settingsFile color true, .success⟩
    | (.error e, after) => .ofError color after (Failure.unwritten file e).message

end Effect

namespace Command

/-! ## Help -/

/-- The text for readers who name no command. -/
def help : Text :=
  Text.joinWith ['\n'] (List.map String.toList [
    "Generate TypeScript type definitions for the class names of LESS stylesheets",
    "",
    "Usage: typed-less [COMMAND]",
    "",
    "Commands:",
    "  generate  Generate TypeScript definitions for LESS class names",
    "  init      Initialize a new .typedlessrc.json configuration file",
    "  help      Print this message or the help of the given subcommand(s)",
    "",
    "Options:",
    "  -h, --help     Print help",
    "  -V, --version  Print version"])

/-! ## Running -/

/-- What a command does, or a command line that names none. -/
def run (color : Bool) (disk : Disk) (command : Option Command) (device : Device := .whole) :
    Effect :=
  match command with
  | some (.generate a) => .generate color disk a device
  | some .init => .init color disk device
  | none => ⟨disk, .outLine help, .success⟩

end Command

end StyleTypings
