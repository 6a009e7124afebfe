/-
Glob walks — the files that a pattern selects on a disk.

A pattern is cut at its slashes, and every piece between them is a pattern of its
own, matched against one name.  A piece without wildcards is looked up, one with
wildcards is tried on all entries of the directory, and `**` leads on to everything
below it.  Of what the pattern leads to, only files are selected; so a pattern that
ends in a slash or in `**` selects nothing.

A file to which the pattern leads in several ways is selected several times.
-/
import StyleTypings.Globs.Pattern
import StyleTypings.Files.Walk

namespace StyleTypings

namespace Glob

/-- What one piece of a pattern between slashes asks for. -/
inductive Piece where
  /-- The entry of this name. -/
  | name (n : Text)
  | directories
  /-- The entries whose names match. -/
  | wild (tokens : List Token)
deriving DecidableEq, Repr

/-- The character that a token stands for, if it is no wildcard. -/
def Token.literal? : Token → Option Char
  | .char c => some c
  | _ => none

def Piece.ofTokens (ts : List Token) : Piece :=
  if ts.contains .anyDirectories then .directories
  else
    match ts.mapM Token.literal? with
    | some n => .name n
    | none => .wild ts

/-- The tokens that a piece matches names with. -/
def Piece.tokens : Piece → List Token
  | .name n => n.map .char
  | .directories => [.anyDirectories]
  | .wild ts => ts

/-- Pieces with every run of `**` as a single one. -/
def mergeDirectories : List Piece → List Piece
  | .directories :: .directories :: rest => mergeDirectories (.directories :: rest)
  | p :: rest => p :: mergeDirectories rest
  | [] => []

/-- The texts between slashes; a slash at the end ends the last of them. -/
def cutAtSlashes (t : Text) : List Text :=
  let parts := t.splitOn '/'
  if parts.getLast? == some [] then parts.dropLast else parts

/-- The pieces of a pattern after the slash that may begin it. -/
def pieces (t : Text) : Except PatternError (List Piece) := do
  let ts ← (cutAtSlashes t).mapM tokensOf
  return mergeDirectories (ts.map Piece.ofTokens)

/-! ## Walking -/

/-- The path of an entry of a directory.  Entries of the directory where the walk
begins are named without it. -/
def entryPath (directory : Path) (name : Text) : Path :=
  if directory.parts == [.current] then ⟨false, [name]⟩ else directory.child name

/-- Whether a name that means a directory itself or the one above it matches tokens.
They have to begin with a point. -/
def admitsSpecial (ts : List Token) (name : Text) : Bool :=
  ts.head? == some (.char '.') && admits ts name

/-- The files that pieces lead to from the directory at a path, in the order of their
names.  What a piece finds by going up or staying comes before what it finds below. -/
def walk (disk : Disk) : List Piece → Path → List Path
  | [], _ => []
  | .name n :: rest, directory =>
    let path := entryPath directory n
    let exists' := if Path.isSpecial n then disk.isDirectory directory else disk.contains path
    if ! exists' then []
    else if rest.isEmpty then (if disk.isFile path then [path] else [])
    else walk disk rest path
  | [.directories], _ => []
  | .directories :: p :: rest, directory =>
    (Entry.walkAll entryPath directory (disk.entriesAt directory)).flatMap fun f =>
      if ! admits p.tokens f.name then []
      else if rest.isEmpty then (if f.entry.isDirectory then [] else [f.path])
      else walk disk rest f.path
  | .wild ts :: rest, directory =>
    let found := (disk.entriesAt directory).flatMap fun (name, e) =>
      if ! admits ts name then []
      else if rest.isEmpty then (if e.isDirectory then [] else [entryPath directory name])
      else walk disk rest (entryPath directory name)
    let special := if disk.isDirectory directory then
        (["..", "."].map String.toList).filter (admitsSpecial ts) else []
    (special.flatMap fun name => walk disk rest (directory.child name)) ++ found

def files (disk : Disk) (g : Glob) : Except PatternError (List Path) :=
  let (start, t) : Path × Text := match g.text with
    | '/' :: rest => (Path.ofText ['/'], rest)
    | t => (Path.ofText ['.'], t)
  (pieces t).map fun ps => if g.text.getLast? == some '/' then [] else walk disk ps start

end Glob

end StyleTypings
