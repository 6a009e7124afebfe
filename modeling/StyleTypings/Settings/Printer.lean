/-
Settings written as JSON.

The text has one line for each setting and each of its entries, indented by two spaces
for each bracket around it.  Empty lists and dictionaries take no lines of their own.
-/
import StyleTypings.Settings.Basic
import StyleTypings.Json.Strings

namespace StyleTypings

namespace Settings

/-- The spaces at the beginning of a line. -/
def indent (depth : Nat) : Text := List.replicate (2 * depth) ' '

/-- Items between brackets, each on a line of its own. -/
def bracketed (depth : Nat) (opening closing : Char) (items : List Text) : Text :=
  if items.isEmpty then [opening, closing]
  else
    let lines := items.map fun t => ['\n'] ++ indent (depth + 1) ++ t
    [opening] ++ Text.joinWith [','] lines ++ ['\n'] ++ indent depth ++ [closing]

/-- A member of an object. -/
def member (name value : Text) : Text := Json.quoted name ++ [':', ' '] ++ value

/-- A dictionary as an object. -/
def printDictionary (depth : Nat) (d : Dictionary) : Text :=
  bracketed depth '\x7b' '\x7d' (d.map fun (name, value) => member name (Json.quoted value))

/-- Settings as an object. -/
def print (s : Settings) : Text :=
  bracketed 0 '\x7b' '\x7d' [
    member "nameFormat" (Json.quoted s.nameFormat.name),
    member "exportType" (Json.quoted s.exportType.name),
    member "lineEnding" (Json.quoted s.lineEnding.escaped),
    member "aliases" (printDictionary 1 s.aliases.exact),
    member "aliasPrefixes" (printDictionary 1 s.aliases.starts),
    member "ignores" (bracketed 1 '[' ']' (s.ignores.map Json.quoted))]

end Settings

end StyleTypings
