/-
Scans — the files that a source pattern selects on a disk.

The candidates are the file itself, the style sheets below the directory, or the
files that the glob leads to.  Those on the ignore list are counted and left out; the
others are put in the order of their paths, each one once.  What a reader might want
to know about a scan is said in notices.
-/
import StyleTypings.Globs.Walk
import StyleTypings.Sources.Pattern

namespace StyleTypings

/-- Something to be said about a scan. -/
inductive Notice where
  | invalidIgnore (pattern : Text) (error : Glob.PatternError)
  | missingFile (path : Path)
  /-- A path that a walk cannot begin at. -/
  | inaccessible (path : Path) (error : FileError)
  | invalidGlob (pattern : Text) (error : Glob.PatternError)
  | ignored (path : Path)
deriving DecidableEq, Repr

/-- Whether a notice is given to readers who do not ask for more. -/
def Notice.isUrgent : Notice → Bool
  | .invalidGlob _ _ => true
  | _ => false

/-- The result of a scan. -/
structure Scan where
  /-- The selected files in plain form, in order. -/
  files : List Path
  ignored : Nat
  /-- How many paths could not be walked. -/
  skipped : Nat
  notices : List Notice
deriving DecidableEq, Repr

/-- The notices about ignore patterns that are none. -/
def IgnoreList.notices (ts : List Text) : List Notice :=
  ts.filterMap fun t =>
    match Glob.read t with
    | .ok _ => none
    | .error e => some (.invalidIgnore t e)

namespace Scan

/-- A path put into a list of paths that is in order, unless it is there already. -/
def insert (p : Path) : List Path → List Path
  | [] => [p]
  | q :: rest =>
    if p.same q then q :: rest
    else if p.le q then p :: q :: rest
    else q :: insert p rest

/-- Paths in order, each one once. -/
def sorted (ps : List Path) : List Path := ps.foldr insert []

/-- The style sheets among entries met on a walk. -/
def styleSheets (found : List Found) : List Path :=
  (found.filter fun f => ! f.entry.isDirectory && f.path.isStyleSheet).map (·.path)

/-- The candidates of a pattern, or the reason why there are none. -/
def candidates (disk : Disk) : SourcePattern → Except Notice (List Path)
  | .file path => if disk.isFile path then .ok [path] else .error (.missingFile path)
  | .directory path =>
    match disk.entry path with
    | .ok e => .ok (styleSheets (e.walk Path.child path []))
    | .error e => .error (.inaccessible path e)
  | .glob g =>
    match Glob.files disk g with
    | .ok paths => .ok paths
    | .error e => .error (.invalidGlob g.text e)

/-- How many paths a notice says could not be walked. -/
def skips : Notice → Nat
  | .inaccessible _ _ => 1
  | _ => 0

/-- The files that a pattern selects, without those on an ignore list. -/
def run (disk : Disk) (pattern : SourcePattern) (ignores : IgnoreList) : Scan :=
  match candidates disk pattern with
  | .error n => ⟨[], 0, skips n, [n]⟩
  | .ok paths =>
    let (out, kept) := paths.partition fun p => ignores.ignores p
    ⟨sorted (kept.map Path.normalize), out.length, 0, out.map .ignored⟩

end Scan

end StyleTypings
