/-
Disks — files and directories as a value.

A disk is the tree below the root directory together with the directory that is
the working one.  Everything that reads or writes files does so on a disk, so a
run is a function from disks to disks.  There are no links, neither symbolic nor hard
ones: a place in the tree has one list of names that leads to it, its location, and two
paths name the same file exactly when they lead to the same location.  What is said of
every disk is said of trees without links.

What is to be written is put into a file that is empty by then, and this can break off.
When it does, and what the file holds then, is for the device to say (`Device`).

Paths are followed the way the system follows them: every segment but the last has
to lead to a directory, `..` goes up, and a slash or `.` at the end asks for a
directory.  The entries of a directory are kept in the order of their names.
-/
import StyleTypings.Files.Path

namespace StyleTypings

/-- What a file holds: a text, or bytes that are no text. -/
inductive Content where
  | text (t : Text)
  | bytes (b : List UInt8)
deriving DecidableEq, Repr

/-- A file, or a directory with its entries in the order of their names. -/
inductive Entry where
  | file (content : Content)
  | directory (entries : List (Text × Entry))

/-- Why a file cannot be used. -/
inductive FileError where
  | notFound
  | notDirectory
  | isDirectory
  | nameTooLong
  | nulInName
  | notText
  | noSpace
deriving DecidableEq, Repr

/-- The wording of an error, with the number the system gives it. -/
def FileError.message : FileError → Text
  | .notFound => ("No such file or directory (os error 2)" : Text)
  | .notDirectory => ("Not a directory (os error 20)" : Text)
  | .isDirectory => ("Is a directory (os error 21)" : Text)
  | .nameTooLong => ("File name too long (os error 36)" : Text)
  | .nulInName => ("file name contained an unexpected NUL byte" : Text)
  | .notText => ("stream did not contain valid UTF-8" : Text)
  | .noSpace => ("No space left on device (os error 28)" : Text)

/-- The names that lead from the root to a place. -/
abbrev Location := List Text

/-- The tree of all files, and the working directory. -/
structure Disk where
  root : Entry
  working : Location

/-- Whether writing a text to the file at a location of a disk breaks off: what is in the file
by then, and why there is no more. -/
abbrev Device := Disk → Location → Text → Option (Content × FileError)

/-- A device on which nothing breaks off. -/
def Device.whole : Device := fun _ _ _ => none

namespace Entry

def isDirectory : Entry → Bool
  | .directory _ => true
  | .file _ => false

def child? (name : Text) : Entry → Option Entry
  | .directory entries => entries.lookup name
  | .file _ => none

/-- The entry at the end of a list of names. -/
def at? : Location → Entry → Option Entry
  | [], e => some e
  | name :: names, e => (e.child? name).bind (at? names)

/-- Entries in order, with the entry of one name replaced or put in. -/
def put (name : Text) (e : Entry) : List (Text × Entry) → List (Text × Entry)
  | [] => [(name, e)]
  | (n, old) :: rest =>
    if n = name then (name, e) :: rest
    else if Path.textLe name n then (name, e) :: (n, old) :: rest
    else (n, old) :: put name e rest

/-- The tree with the entry at a location replaced or put in.  Directories that are
missing on the way are made; a file on the way stops everything. -/
def set (new : Entry) : Location → Entry → Option Entry
  | [], _ => some new
  | name :: names, .directory entries =>
    (set new names ((entries.lookup name).getD (.directory []))).map fun e =>
      .directory (put name e entries)
  | _ :: _, .file _ => none

/-- The tree without the entry at a location. -/
def erase : Location → Entry → Option Entry
  | [], _ => none
  | [name], .directory entries =>
    if (entries.lookup name).isSome then some (.directory (entries.filter (·.1 != name))) else none
  | name :: names, .directory entries =>
    (entries.lookup name).bind fun e => (erase names e).map fun e =>
      .directory (put name e entries)
  | _ :: _, .file _ => none

end Entry

namespace Disk

/-- A segment of at most this many bytes can be a name. -/
def maxName : Nat := 255

/-- A path of fewer than this many bytes can be followed. -/
def maxPath : Nat := 4096

/-- The location that segments lead to from a location.  What is passed on the way
has to be a directory. -/
def follow (d : Disk) : List Text → Location → Except FileError Location
  | [], here => .ok here
  | s :: rest, here =>
    match d.root.at? here with
    | some (.directory entries) =>
      if Path.isFiller s then d.follow rest here
      else if s = ['.', '.'] then d.follow rest here.dropLast
      else if maxName < s.utf8Size then .error .nameTooLong
      else if (entries.lookup s).isSome then d.follow rest (here ++ [s])
      else .error .notFound
    | some (.file _) => .error .notDirectory
    | none => .error .notFound

/-- Why the spelling of a path alone makes it lead nowhere. -/
def misspelling? (p : Path) : Option FileError :=
  let t := p.text
  if t.isEmpty then some .notFound
  else if t.contains '\x00' then some .nulInName
  else if maxPath ≤ t.utf8Size then some .nameTooLong
  else none

/-- Where a path begins. -/
def start (d : Disk) (p : Path) : Location := if p.absolute then [] else d.working

/-- The location that a path leads to. -/
def locate (d : Disk) (p : Path) : Except FileError Location :=
  match misspelling? p with
  | some e => .error e
  | none => d.follow p.segments (d.start p)

/-- The entry that a path leads to. -/
def entry (d : Disk) (p : Path) : Except FileError Entry := do
  let here ← d.locate p
  match d.root.at? here with
  | some e => .ok e
  | none => .error .notFound

/-- Whether a path leads to anything. -/
def contains (d : Disk) (p : Path) : Bool := (d.entry p).toOption.isSome

def isFile (d : Disk) (p : Path) : Bool :=
  match d.entry p with
  | .ok (.file _) => true
  | _ => false

def isDirectory (d : Disk) (p : Path) : Bool :=
  match d.entry p with
  | .ok (.directory _) => true
  | _ => false

/-- The text of the file that a path leads to. -/
def read (d : Disk) (p : Path) : Except FileError Text := do
  match ← d.entry p with
  | .file (.text t) => .ok t
  | .file (.bytes _) => .error .notText
  | .directory _ => .error .isDirectory

/-- The location at which a path would create a file: its last segment is a name in
an existing directory. -/
def target (d : Disk) (p : Path) : Except FileError Location :=
  match misspelling? p, p.segments.getLast? with
  | some e, _ => .error e
  | none, none => .error .notFound
  | none, some name =>
    if Path.isFiller name || name == ['.', '.'] then .error .isDirectory
    else do
      let directory ← d.follow p.segments.dropLast (d.start p)
      match d.root.at? directory with
      | some (.directory entries) =>
        match entries.lookup name with
        | some (.directory _) => .error .isDirectory
        | _ => if maxName < name.utf8Size then .error .nameTooLong else .ok (directory ++ [name])
      | some (.file _) => .error .notDirectory
      | none => .error .notFound

/-- The disk with a content put into the file at a location. -/
def put (d : Disk) (here : Location) (c : Content) : Disk :=
  match Entry.set (.file c) here d.root with
  | some root => { d with root }
  | none => d

/-- A text written to the file at a path, and what becomes of the disk.  When writing breaks
off, what the file held is lost all the same. -/
def write (d : Disk) (p : Path) (t : Text) (device : Device := .whole) :
    Except FileError Unit × Disk :=
  match d.target p with
  | .error e => (.error e, d)
  | .ok here =>
    match device d here t with
    | none => (.ok (), d.put here (.text t))
    | some (part, e) => (.error e, d.put here part)

/-- The absolute path of a location. -/
def pathOf (here : Location) : Path := ⟨true, if here.isEmpty then [[]] else here⟩

/-- The absolute path of the working directory. -/
def workingPath (d : Disk) : Path := pathOf d.working

end Disk

end StyleTypings
