/-
Generation — the declaration files of all selected style sheets.

A run reads each selected style sheet, in the order of the scan, and writes its
declarations next to it.  A run that checks compares them with what is there and
writes nothing.  A style sheet that cannot be processed is reported and does not stop
the others.  Nor does one whose declarations the device writes in part only, which is
reported as well.
-/
import StyleTypings.Command.Arguments
import StyleTypings.Command.Outcome
import StyleTypings.Settings.Discovery
import StyleTypings.Sources.Scan
import StyleTypings.Typings.Render

namespace StyleTypings

/-! ## What goes wrong -/

/-- Why a style sheet could not be processed. -/
inductive Failure where
  | uncompiled (file : Path) (halt : Less.Halt)
  | unwritten (output : Path) (error : FileError)
deriving DecidableEq, Repr

/-- The wording of a failure, with what stands behind it. -/
def Failure.message : Failure → Text
  | .uncompiled file halt =>
    ("Failed to compile " : Text) ++ file.text ++ (": " : Text) ++ halt.message
  | .unwritten output error =>
    ("Failed to write " : Text) ++ output.text ++ (": " : Text) ++ error.message

/-- Why a command does not even begin its work. -/
inductive SetupError where
  | settings (error : Settings.LoadError)
  | pattern (text : Text) (error : Glob.PatternError)
deriving DecidableEq, Repr

/-- The wording of an error, with what stands behind it. -/
def SetupError.message : SetupError → Text
  | .settings error => error.context ++ (": " : Text) ++ error.message
  | .pattern text error =>
    ("Invalid pattern: \"" : Text) ++ text ++ ("\": " : Text) ++ error.message

/-! ## Settings of a run -/

/-- What a run goes by: the settings file, as far as the command line says nothing
else. -/
structure Generation where
  pattern : SourcePattern
  /-- The source pattern as it was given. -/
  patternText : Text
  nameFormat : NameFormat
  exportType : ExportType
  lineEnding : LineEnding
  /-- Whether to check declarations and write none. -/
  listDifferent : Bool
  aliases : ImportAliases
  ignores : IgnoreList
  verbose : Bool
deriving DecidableEq, Repr

namespace Generation

/-- What a run goes by when some settings hold. -/
def ofSettings (disk : Disk) (a : GenerateArguments) (s : Settings) :
    Except SetupError Generation := do
  let pattern ← (SourcePattern.read disk a.pattern).mapError (.pattern a.pattern)
  return {
    pattern
    patternText := a.pattern
    nameFormat := a.nameFormat.getD s.nameFormat
    exportType := a.exportType.getD s.exportType
    lineEnding := a.lineEnding.getD s.lineEnding
    listDifferent := a.listDifferent
    aliases := s.aliases.extend a.aliases a.aliasPrefixes
    ignores := .ofTexts s.ignores
    verbose := a.verbose }

/-- What a run in the working directory goes by. -/
def ofArguments (disk : Disk) (a : GenerateArguments) : Except SetupError Generation := do
  ofSettings disk a (← (Settings.load disk disk.workingPath).mapError .settings)

/-! ## Files -/

/-- The declarations of a style sheet compared with those on the disk, or written. -/
def deliver (g : Generation) (disk : Disk) (file : Path) (definitions : Text)
    (device : Device := .whole) : Outcome × Disk :=
  let output := Typings.definitionPath g.exportType file
  if g.listDifferent then
    (if (disk.read output).toOption == some definitions then .upToDate output
      else .different output, disk)
  else
    match disk.write output definitions device with
    | (.ok (), disk) => (.generated output, disk)
    | (.error e, disk) => (.failed (Failure.unwritten output e).message, disk)

/-- What becomes of a style sheet, and of the disk. -/
def processFile (g : Generation) (disk : Disk) (file : Path) (device : Device := .whole) :
    FileReport × Disk :=
  match extract disk g.nameFormat file with
  | .error h => (⟨file, .failed (Failure.uncompiled file h).message, []⟩, disk)
  | .ok cs =>
    let rendered := Typings.render g.exportType g.lineEnding cs
    match rendered.definitions with
    | none => (⟨file, .noClassNames, rendered.warnings⟩, disk)
    | some definitions =>
      let (outcome, disk) := g.deliver disk file definitions device
      (⟨file, outcome, rendered.warnings⟩, disk)

/-- What becomes of style sheets one after the other, and of the disk. -/
def processFiles (g : Generation) (disk : Disk) (files : List Path) (device : Device := .whole) :
    List FileReport × Disk :=
  match files with
  | [] => ([], disk)
  | file :: rest =>
    let (report, disk) := g.processFile disk file device
    let (reports, disk) := g.processFiles disk rest device
    (report :: reports, disk)

/-! ## Runs -/

/-- The files that a run works on. -/
def scan (g : Generation) (disk : Disk) : Scan := Scan.run disk g.pattern g.ignores

/-- What a run does, and what becomes of the disk. -/
def run (g : Generation) (disk : Disk) (device : Device := .whole) : Summary × Disk :=
  let scan := g.scan disk
  let (files, disk) := g.processFiles disk scan.files device
  (⟨g.patternText, files, scan.ignored, scan.skipped, g.listDifferent⟩, disk)

end Generation

end StyleTypings
