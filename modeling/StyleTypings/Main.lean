/-
The command — a command line run on the files of the system.

The files are taken up into a disk, the command runs on it, and what it has changed is
written back.  The disk holds all of the repository that the working directory belongs
to, links to directories and the repository's own records left out; of the directories
above it has what a search for settings looks at.
-/
import StyleTypings.Command.Run
import StyleTypings.Files.Walk

namespace StyleTypings.Main

/-! ## Taking up files -/

/-- The names in a directory. -/
def namesIn (path : String) : IO (List String) := do
  return (← (← IO.FS.realPath path).readDir).toList.map (·.fileName)

/-- Whether a path leads to anything. -/
def contains (path : String) : IO Bool := do
  try
    let _ ← IO.FS.realPath path
    return true
  catch _ => return false

def isDirectory (path : String) : IO Bool := do
  if ← contains path then (← IO.FS.realPath path).isDir else return false

/-- Whether a path that leads to something goes through a link. -/
def isLink (path : String) : IO Bool := return (← IO.FS.realPath path).toString != path

def fileAt (path : String) : IO Entry := do
  let bytes ← IO.FS.readBinFile path
  return .file (match String.fromUTF8? bytes with
    | some s => .text s.toList
    | none => .bytes bytes.toList)

def directoryOf (entries : List (Text × Entry)) : Entry :=
  .directory (entries.foldl (fun all (name, e) => Entry.put name e all) [])

/-- The directory at a path, with everything below it. -/
partial def directoryAt (path : String) : IO Entry := do
  let mut entries := []
  for name in ← namesIn path do
    let below := path ++ "/" ++ name
    let mark := name.toList == Settings.repositoryMark
    if mark then entries := (name.toList, .directory []) :: entries
    else if ← isDirectory below then
      unless ← isLink below do
        entries := (name.toList, ← directoryAt below) :: entries
    else if ← contains below then
      entries := (name.toList, ← fileAt below) :: entries
  return directoryOf entries

/-- What a search for settings looks at in a directory. -/
def settingsIn (path : String) : IO (List (Text × Entry)) := do
  let file := path ++ "/" ++ Settings.fileName.toStr
  if (← contains file) && !(← isDirectory file) then
    return [(Settings.fileName, ← fileAt file)]
  else return []

/-- Whether the top directory of a repository is on the way from one directory to another
one below it. -/
def meetsRepository (path : String) : List String → IO Bool
  | [] => contains (path ++ "/" ++ Settings.repositoryMark.toStr)
  | name :: rest => do
    if ← contains (path ++ "/" ++ Settings.repositoryMark.toStr) then return true
    else meetsRepository (path ++ "/" ++ name) rest

/-- The directory at a path, as far as a command that runs in a directory below it
needs it. -/
def surroundings (path : String) : List String → IO Entry
  | [] => directoryAt path
  | name :: rest => do
    let inner := path ++ "/" ++ name
    let top ← contains (path ++ "/" ++ Settings.repositoryMark.toStr)
    if top && !(← meetsRepository inner rest) then directoryAt path
    else return directoryOf ((name.toList, ← surroundings inner rest) :: (← settingsIn path))

/-- The files of the system. -/
def takeUp : IO Disk := do
  let names := ((← IO.currentDir).toString.splitOn "/").filter (! ·.isEmpty)
  return ⟨← surroundings "" names, names.map (·.toList)⟩

/-! ## Writing back -/

/-- The texts that one disk holds and another does not, with their paths. -/
def changes (before after : Disk) : List (Path × Text) :=
  (after.root.walk Path.child (Disk.pathOf []) []).filterMap fun f =>
    match f.entry with
    | .file (.text t) => if (before.read f.path).toOption == some t then none else some (f.path, t)
    | _ => none

/-- A changed disk written back. -/
def writeBack (before after : Disk) : IO Unit := do
  for (path, t) in changes before after do
    IO.FS.writeFile path.text.toStr t.toStr

/-! ## Command lines that are not run -/

/-- What is said about a command line that is not run. -/
def usage : UsageError → Printed
  | .displayHelp => .outLine Command.help
  | .displayVersion => .outLine "typed-less 0.1.0"
  | .valueValidation line => .errLine line
  | .unknownArgument => .errLine "error: unexpected argument"
  | .invalidSubcommand => .errLine "error: unrecognized subcommand"
  | .missingRequiredArgument => .errLine "error: a required argument is missing"
  | .invalidValue => .errLine "error: a value is missing or is none of the choices"
  | .argumentConflict => .errLine "error: an argument is given more than once"
  | .tooManyValues => .errLine "error: a value is given to an argument that takes none"

/-- Whether a command is to go on when files change, which this program does not do. -/
def watches : Option Command → Bool
  | some (.generate a) => a.watch
  | _ => false

/-- What is printed goes to the standard output and the standard error. -/
def tell (p : Printed) : IO Unit := do
  IO.print p.out.toStr
  IO.eprint p.err.toStr

/-- Runs a command line, and ends with the status of the command. -/
def run (args : List String) : IO UInt32 := do
  let color ← (← IO.getStdout).isTty
  match Arguments.read (args.map (·.toList)) with
  | .error e =>
    tell (usage e)
    return e.status.toUInt32
  | .ok command =>
    if watches command then
      tell (.errLine (Report.errorLine color "watching is not supported"))
      return ExitStatus.error.code.toUInt32
    let disk ← takeUp
    let effect := Command.run color disk command
    writeBack disk effect.disk
    tell effect.printed
    return effect.status.code.toUInt32

end StyleTypings.Main

/-- The command line of the program. -/
def main (args : List String) : IO UInt32 := StyleTypings.Main.run args
