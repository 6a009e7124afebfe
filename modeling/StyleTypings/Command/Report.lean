/-
Reports — the lines that a run prints.

Results go to the standard output, problems to the standard error.  With colours,
the marks at the beginning of a line are set between the codes of a terminal.
-/
import StyleTypings.Command.Outcome
import StyleTypings.Settings.Discovery
import StyleTypings.Sources.Scan

namespace StyleTypings

/-- What is printed to the standard output and to the standard error. -/
structure Printed where
  out : Text
  err : Text
deriving DecidableEq, Repr

namespace Printed

def nothing : Printed := ⟨[], []⟩

/-- One thing printed after another. -/
def append (p q : Printed) : Printed := ⟨p.out ++ q.out, p.err ++ q.err⟩

instance : Append Printed := ⟨append⟩

/-- Many things printed one after another. -/
def all (ps : List Printed) : Printed := ps.foldr append nothing

/-- A line on the standard output. -/
def outLine (t : Text) : Printed := ⟨t ++ ['\n'], []⟩

/-- A line on the standard error. -/
def errLine (t : Text) : Printed := ⟨[], t ++ ['\n']⟩

end Printed

namespace Report

/-! ## Colours -/

/-- How a text is shown. -/
inductive Style where
  | boldYellow
  | boldRed
  | boldCyan
  | green
  | yellow
  | red
  | dimmed
deriving DecidableEq, Repr

/-- The code of a style: bold before the colour. -/
def Style.code : Style → Text
  | .boldYellow => ("1;33" : Text)
  | .boldRed => ("1;31" : Text)
  | .boldCyan => ("1;36" : Text)
  | .green => ("32" : Text)
  | .yellow => ("33" : Text)
  | .red => ("31" : Text)
  | .dimmed => ("2" : Text)

def paint (color : Bool) (s : Style) (t : Text) : Text :=
  if color then ['\x1b', '['] ++ s.code ++ ['m'] ++ t ++ ("\x1b[0m" : Text) else t

/-- A word in a style, a space, and a text. -/
def marked (color : Bool) (s : Style) (mark t : Text) : Text := paint color s mark ++ [' '] ++ t

/-- A word in a style, a colon, and a text. -/
def labelled (color : Bool) (s : Style) (label t : Text) : Text :=
  paint color s label ++ [':', ' '] ++ t

/-- The mark before good news. -/
def success : Text := ['✓']

/-- The mark before bad news. -/
def failure : Text := ['✘']

def errorLine (color : Bool) (message : Text) : Text := labelled color .boldRed "error" message

/-! ## Notices -/

def noticeLine (color : Bool) : Notice → Text
  | .invalidIgnore pattern e =>
    marked color .boldYellow "warning:"
      (("Invalid ignore pattern '" : Text) ++ pattern ++ ("': " : Text) ++ e.message)
  | .missingFile path =>
    marked color .boldYellow "warning:" (("File does not exist: " : Text) ++ path.text)
  | .inaccessible path e =>
    marked color .boldYellow "warning:"
      (("Cannot access path: IO error for operation on " : Text) ++ path.text ++ (": " : Text) ++
        e.message)
  | .invalidGlob pattern e =>
    marked color .boldYellow "warning:"
      (("Invalid glob pattern '" : Text) ++ pattern ++ ("': " : Text) ++ e.message)
  | .ignored path => marked color .dimmed "ignored:" path.text

/-- The lines of the notices that a reader gets, who may ask for all of them. -/
def noticeLines (color verbose : Bool) (ns : List Notice) : List Text :=
  (ns.filter fun n => verbose || n.isUrgent).map (noticeLine color)

/-- The notices that a reader gets. -/
def notices (color verbose : Bool) (ns : List Notice) : Printed :=
  .all ((noticeLines color verbose ns).map .errLine)

/-! ## Files -/

/-- The line about what has become of a file. -/
def outcome (color verbose : Bool) (file : Path) : Outcome → Printed
  | .generated output => .outLine (marked color .green "[GENERATED TYPES]" output.text)
  | .noClassNames => .outLine (marked color .yellow "[NO GENERATED TYPES]" file.text)
  | .upToDate output =>
    if verbose then .outLine (marked color .green success output.text) else .nothing
  | .different _ =>
    .outLine (marked color .red "[INVALID TYPES]"
      (("Check type definitions for " : Text) ++ file.text))
  | .removed output => .outLine (marked color .yellow "[REMOVED TYPES]" output.text)
  | .failed message => .errLine (errorLine color message)

/-- The lines about a file, its warnings first. -/
def file (color verbose : Bool) (r : FileReport) : Printed :=
  .all (r.warnings.map fun w => .errLine (labelled color .boldYellow "warning" w)) ++
    outcome color verbose r.file r.outcome

/-! ## Whole runs -/

/-- A count, if it is worth a note. -/
def note (color verbose : Bool) (count : Nat) (t : Text) : Printed :=
  if verbose && count > 0 then .errLine (marked color .boldCyan "note:" (Text.ofNat count ++ t))
  else .nothing

/-- So many of all files. -/
def share (count total : Nat) : Text :=
  Text.ofNat count ++ (" of " : Text) ++ Text.ofNat total ++
    (if total = 1 then (" file" : Text) else (" files" : Text))

/-- The last line about a run: what is wrong with it, or that all has been checked. -/
def conclusion (color : Bool) (s : Summary) : Printed :=
  let total := s.files.length
  let bad (t : Text) : Printed := .errLine (marked color .red failure (paint color .red t))
  if s.failures > 0 then bad (share s.failures total ++ (" could not be processed" : Text))
  else if s.listDifferent && s.differences > 0 then
    bad (share s.differences total ++ (" have outdated type definitions" : Text))
  else if s.listDifferent then
    let checked := ("Checked " : Text) ++ Text.ofNat total ++
      (if total = 1 then (" file" : Text) else (" files" : Text)) ++
      (" - type definitions are up to date" : Text)
    .outLine (marked color .green success (paint color .green checked))
  else .nothing

/-- The lines about a run. -/
def summary (color verbose : Bool) (s : Summary) : Printed :=
  if s.files.isEmpty then
    .errLine (marked color .boldYellow "warning:"
      (("No files found matching '" : Text) ++ s.pattern ++ ['\'']))
  else
    .all (s.files.map (file color verbose)) ++
      note color verbose s.ignored " file(s) ignored" ++
      note color verbose s.skipped " path(s) could not be accessed" ++
      conclusion color s

/-- The line about a settings file to be made: it has been, or was there before. -/
def settingsFile (color created : Bool) : Printed :=
  if created then
    .outLine (marked color .green success
      (paint color .green (("Created " : Text) ++ Settings.fileName)))
  else .errLine (errorLine color (Settings.fileName ++ (" already exists" : Text)))

end Report

end StyleTypings
