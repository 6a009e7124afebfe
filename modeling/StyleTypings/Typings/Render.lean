/-
Declarations — the text of a declaration file, its warnings, and its path.

Declarations with constants have one line for each class whose identifier can name
a constant, and a warning for each other class.  Declarations with a default export
have a member for every class.  A style sheet without classes has no declarations.
-/
import StyleTypings.Classes.Extract
import StyleTypings.Typings.Options
import StyleTypings.Typings.Binding

namespace StyleTypings

/-- What a style sheet is turned into. -/
structure Rendered where
  /-- The text of the declaration file; nothing for a style sheet without classes. -/
  definitions : Option Text
  warnings : List Text
deriving DecidableEq, Repr

namespace Typings

/-- A character inside a string literal with given quotes. -/
def escapeChar (quote c : Char) : Text := if c = '\\' || c = quote then ['\\', c] else [c]

/-- A string literal with given quotes. -/
def literal (quote : Char) (t : Text) : Text := [quote] ++ t.flatMap (escapeChar quote) ++ [quote]

/-- The line that declares a constant without a value. -/
def namedLine (c : ClassName) : Text :=
  ("export const " : Text) ++ c.identifier ++ (": string;" : Text)

def valueLine (c : ClassName) : Text :=
  ("export const " : Text) ++ c.identifier ++ (" = " : Text) ++ literal '"' c.name ++ [';']

/-- The line of an interface that declares a class. -/
def memberLine (c : ClassName) : Text :=
  [' ', ' '] ++ literal '\'' c.identifier ++ (": string;" : Text)

/-- Whether the identifier of a class can name a constant. -/
def isBindable (c : ClassName) : Bool := (Identifier.refusal? c.identifier).isNone

/-- The warning about a class whose identifier cannot name a constant. -/
def warning? (c : ClassName) : Option Text :=
  (Identifier.refusal? c.identifier).map (·.warning c.identifier)

/-- The classes that declarations of a shape have a line for. -/
def declared (e : ExportType) (cs : List ClassName) : List ClassName :=
  match e with
  | .default => cs
  | _ => cs.filter isBindable

def line : ExportType → ClassName → Text
  | .named => namedLine
  | .default => memberLine
  | .values => valueLine

def lines (e : ExportType) (newline : Text) (cs : List ClassName) : Text :=
  Text.joinWith newline ((declared e cs).map (line e))

/-- An interface with given members, and the default export. -/
def defaultExport (newline members : Text) : Text :=
  ("export interface Styles \x7b" : Text) ++ newline ++ members ++ newline ++
    ['\x7d'] ++ newline ++ newline ++
    ("export type ClassNames = keyof Styles;" : Text) ++ newline ++ newline ++
    ("declare const styles: Styles;" : Text) ++ newline ++ newline ++
    ("export default styles;" : Text) ++ newline

/-- The declarations for some classes. -/
def render (e : ExportType) (ending : LineEnding) (cs : List ClassName) : Rendered :=
  if cs.isEmpty then ⟨none, []⟩
  else
    let newline := ending.text
    match e with
    | .default => ⟨some (defaultExport newline (lines e newline cs)), []⟩
    | _ => ⟨some (lines e newline cs ++ newline), cs.filterMap warning?⟩

/-- The path of the declarations for a file.  Those with values take the place of the
extension of a style sheet; the others stand beside it under its full name. -/
def definitionPath (e : ExportType) (file : Path) : Path :=
  match e with
  | .values =>
    let base := if file.extension? == some ("less" : Text) then file.withoutExtension else file
    base.append ".const.ts"
  | _ => file.append ".d.ts"

end Typings

end StyleTypings
