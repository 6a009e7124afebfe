/-
Discovery — which settings hold in a directory.

The settings file is looked for in the directory and in those above it, and the
nearest one counts.  The search does not leave a repository: it ends at the first
directory that holds a `.git`, whose own settings file still counts.
-/
import StyleTypings.Settings.Reader
import StyleTypings.Files.Disk

namespace StyleTypings

namespace Settings

def fileName : Text := ".typedlessrc.json"

/-- What marks the top directory of a repository. -/
def repositoryMark : Text := ".git"

/-- The first settings file in a list of directories, each above the one before. -/
def findIn (disk : Disk) : List Path → Option Path
  | [] => none
  | d :: above =>
    let file := d.join ⟨false, [fileName]⟩
    if disk.contains file then some file
    else if disk.contains (d.join ⟨false, [repositoryMark]⟩) then none
    else findIn disk above

/-- A path and the paths that are left when its last parts go one by one. -/
def ancestors (p : Path) : List Path := go p.segments.length p
where
  go : Nat → Path → List Path
    | 0, p => [p]
    | n + 1, p =>
      match p.parent? with
      | some parent => p :: go n parent
      | none => [p]

/-- The settings file that holds in a directory. -/
def find (disk : Disk) (start : Path) : Option Path := findIn disk (ancestors start)

/-- Why there are no settings. -/
inductive LoadError where
  | unreadable (file : Path) (error : FileError)
  | unparsable (file : Path) (error : Json.ReadError)
  | invalidIgnore (pattern : Text) (error : Glob.PatternError)
deriving DecidableEq, Repr

namespace LoadError

/-- What was being done when an error came up. -/
def context : LoadError → Text
  | .unreadable file _ => ("Failed to read config file: " : Text) ++ file.text
  | .unparsable file _ => ("Failed to parse config file: " : Text) ++ file.text
  | .invalidIgnore pattern _ =>
    ("Invalid glob pattern in 'ignores': \"" : Text) ++ pattern ++ ['"']

/-- The wording of the error itself. -/
def message : LoadError → Text
  | .unreadable _ error => error.message
  | .unparsable _ error => error.located
  | .invalidIgnore _ error => error.message

end LoadError

/-- Settings whose ignore patterns are patterns. -/
def checked (s : Settings) : Except LoadError Settings :=
  match s.invalidIgnore? with
  | some (pattern, e) => .error (.invalidIgnore pattern e)
  | none => .ok s

def loadFile (disk : Disk) (file : Path) : Except LoadError Settings :=
  match disk.read file with
  | .error e => .error (.unreadable file e)
  | .ok t =>
    match read t with
    | .error e => .error (.unparsable file e)
    | .ok s => checked s

/-- The settings that hold in a directory. -/
def load (disk : Disk) (start : Path) : Except LoadError Settings :=
  match find disk start with
  | some file => loadFile disk file
  | none => .ok default

end Settings

end StyleTypings
