/-
Watching — what a change in the file tree asks for.

A change is reported with the paths that it concerns.  Paths below the working
directory are seen from there, since that is where relative source patterns are seen
from; a path that is not selected so can still be selected as it is reported.  What is
to be done depends on the change and on what the disk holds by now.
-/
import StyleTypings.Sources.Pattern

namespace StyleTypings

/-- A kind of change in the file tree. -/
inductive Change where
  | created
  | modified
  | removed
  /-- Anything that changes no file. -/
  | other
deriving DecidableEq, Repr

/-- What is to be done about a style sheet. -/
inductive WatchAction where
  /-- Its declarations have to be written. -/
  | generate (file : Path)
  /-- Its declarations have to go. -/
  | remove (file : Path)
deriving DecidableEq, Repr

namespace WatchAction

/-- Whether two actions are one, in whatever spelling of the path. -/
def same : WatchAction → WatchAction → Bool
  | .generate p, .generate q => p.same q
  | .remove p, .remove q => p.same q
  | _, _ => false

/-- The path under which a reported path is selected. -/
def selected? (pattern : SourcePattern) (working path : Path) : Option Path :=
  let relative := (path.stripPrefix? working).getD path
  if pattern.selects relative then some relative
  else if pattern.selects path then some path
  else none

/-- What a change asks for at a reported path that is selected as `file`. -/
def ofChange? (disk : Disk) (change : Change) (path file : Path) : Option WatchAction :=
  let updated :=
    if disk.isFile path then some (.generate file)
    else if disk.contains path then none
    else some (.remove file)
  match change with
  | .created => updated
  | .modified => updated
  | .removed => some (.remove file)
  | .other => none

/-- What a change asks for at a reported path. -/
def at? (disk : Disk) (pattern : SourcePattern) (ignores : IgnoreList) (working : Path)
    (change : Change) (path : Path) : Option WatchAction := do
  let file ← selected? pattern working path
  if ignores.ignores file then none else ofChange? disk change path file

/-- Actions without those that repeat an earlier one. -/
def distinct (as : List WatchAction) : List WatchAction :=
  as.foldl (fun kept a => if kept.any (·.same a) then kept else kept ++ [a]) []

/-- What a change asks for, in the order of the paths that it concerns. -/
def ofPaths (disk : Disk) (pattern : SourcePattern) (ignores : IgnoreList) (working : Path)
    (change : Change) (paths : List Path) : List WatchAction :=
  distinct (paths.filterMap (at? disk pattern ignores working change))

end WatchAction

end StyleTypings
