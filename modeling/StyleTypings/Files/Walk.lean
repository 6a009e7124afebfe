/-
Walks — everything below a directory.

A walk gives every entry below a directory with its name and a path to it.  How the
path of an entry is made from the path of its directory is up to the walk, since
messages show the paths as they are made.
-/
import StyleTypings.Files.Disk

namespace StyleTypings

/-- An entry met on a walk. -/
structure Found where
  path : Path
  name : Text
  entry : Entry

namespace Path

/-- The path of an entry of a directory. -/
def child (directory : Path) (name : Text) : Path := directory.join ⟨false, [name]⟩

end Path

namespace Entry

mutual

/-- An entry, and everything below it. -/
def walk (step : Path → Text → Path) (path : Path) (name : Text) : Entry → List Found
  | .file content => [⟨path, name, .file content⟩]
  | .directory entries => ⟨path, name, .directory entries⟩ :: walkAll step path entries

/-- Everything below a directory with given entries. -/
def walkAll (step : Path → Text → Path) (directory : Path) : List (Text × Entry) → List Found
  | [] => []
  | (name, e) :: rest => walk step (step directory name) name e ++ walkAll step directory rest

end

end Entry

namespace Disk

/-- The entries of the directory at a path, with their names; none if there is no
directory. -/
def entriesAt (disk : Disk) (directory : Path) : List (Text × Entry) :=
  match disk.entry directory with
  | .ok (.directory entries) => entries
  | _ => []

end Disk

end StyleTypings
