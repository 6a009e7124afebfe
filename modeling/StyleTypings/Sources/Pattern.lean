/-
Sources — which style sheets a run works on.

A source pattern names one file, a directory of style sheets, or all files that a
glob pattern matches.  Which of the three a text means is decided by its wildcards
and by what stands on the disk.

Paths are compared in plain form, without `.` and without repeated slashes.
-/
import StyleTypings.Globs.Pattern
import StyleTypings.Files.Disk

namespace StyleTypings

inductive SourcePattern where
  /-- One file, whatever its extension. -/
  | file (path : Path)
  /-- All style sheets below a directory. -/
  | directory (path : Path)
  /-- All files that a pattern matches. -/
  | glob (pattern : Glob)
deriving DecidableEq, Repr

/-- Whether a text has wildcards.  Classes in brackets alone do not count. -/
def hasWildcard (t : Text) : Bool := t.contains '*' || t.contains '?'

/-- Whether a path has the extension of a style sheet. -/
def Path.isStyleSheet (p : Path) : Bool := p.extension? == some ("less" : Text)

/-- Whether a path names the directory it is seen from. -/
def Path.isCurrent (p : Path) : Bool := p.parts.all (· == .current)

namespace SourcePattern

/-- The pattern without one `./` before it. -/
def withoutDot (t : Text) : Text :=
  match t with
  | '.' :: '/' :: rest => rest
  | _ => t

def read (disk : Disk) (t : Text) : Except Glob.PatternError SourcePattern :=
  let t := withoutDot t
  if hasWildcard t then (Glob.read t).map .glob
  else
    let path := Path.ofText t
    .ok (if disk.isDirectory path then .directory path else .file path)

/-- The directory to watch for changes.  For a glob it is what stands before the first
wildcard. -/
def watchRoot : SourcePattern → Path
  | .file path =>
    match path.parent? with
    | some parent => if parent.isEmpty then Path.ofText ['.'] else parent
    | none => Path.ofText ['.']
  | .directory path => path
  | .glob g =>
    let base := Path.ofParts ((Path.ofText g.text).parts.takeWhile fun p => ! hasWildcard p.text)
    if base.isEmpty then Path.ofText ['.'] else base

def selects (s : SourcePattern) (path : Path) : Bool :=
  let path := path.normalize
  match s with
  | .file f => f.normalize.same path
  | .directory dir => path.isStyleSheet && (dir.isCurrent || path.startsWith dir.normalize)
  | .glob g => g.admitsText path.text

end SourcePattern

/-! ## Ignored files -/

/-- The patterns of files to leave out. -/
abbrev IgnoreList := List Glob

namespace IgnoreList

/-- The patterns among some texts; texts that are none are dropped. -/
def ofTexts (ts : List Text) : IgnoreList := ts.filterMap fun t => (Glob.read t).toOption

/-- Whether a path is to be left out. -/
def ignores (l : IgnoreList) (path : Path) : Bool := l.any (·.admitsText path.normalize.text)

end IgnoreList

end StyleTypings
