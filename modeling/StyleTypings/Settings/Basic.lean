/-
Settings — what a settings file can set.

Every setting has a default, so an empty file is a settings file.  The aliases are
kept and passed on, but an import is loaded under the specifier that it states.
-/
import StyleTypings.Classes.NameFormat
import StyleTypings.Typings.Options
import StyleTypings.Globs.Pattern
import StyleTypings.Files.Path

namespace StyleTypings

/-- Texts under names, in the order of the names. -/
abbrev Dictionary := List (Text × Text)

namespace Dictionary

/-- The dictionary with a text under a name, in place of any other. -/
def insert (d : Dictionary) (name value : Text) : Dictionary :=
  match d with
  | [] => [(name, value)]
  | (n, v) :: rest =>
    if n = name then (name, value) :: rest
    else if Path.textLe name n then (name, value) :: (n, v) :: rest
    else (n, v) :: insert rest name value

/-- The dictionary with some pairs put in; of two with one name the later counts. -/
def insertAll (d : Dictionary) (ps : List (Text × Text)) : Dictionary :=
  ps.foldl (fun d (name, value) => insert d name value) d

def ofPairs (ps : List (Text × Text)) : Dictionary := insertAll [] ps

end Dictionary

/-- Replacements for what imports name. -/
structure ImportAliases where
  /-- For whole specifiers. -/
  exact : Dictionary
  /-- For the beginnings of specifiers. -/
  starts : Dictionary
deriving DecidableEq, Repr

/-- The aliases with more put in. -/
def ImportAliases.extend (a : ImportAliases) (exact starts : List (Text × Text)) :
    ImportAliases :=
  ⟨a.exact.insertAll exact, a.starts.insertAll starts⟩

/-- The specifier that an import is loaded under.  Aliases do not change it. -/
def ImportAliases.remap (_ : ImportAliases) (specifier : Text) : Text := specifier

structure Settings where
  nameFormat : NameFormat
  exportType : ExportType
  lineEnding : LineEnding
  aliases : ImportAliases
  /-- The patterns of files to leave out. -/
  ignores : List Text
deriving DecidableEq, Repr

namespace Settings

/-- The settings without a settings file. -/
def default : Settings where
  nameFormat := .camel
  exportType := .named
  lineEnding := .lf
  aliases := ⟨[], []⟩
  ignores := [("**/node_modules/**" : Text)]

/-- The first ignore pattern that is none, and why. -/
def invalidIgnore? (s : Settings) : Option (Text × Glob.PatternError) :=
  s.ignores.findSome? fun t =>
    match Glob.read t with
    | .ok _ => none
    | .error e => some (t, e)

end Settings

end StyleTypings
