/-
Options of type declarations — their shape and their line ending.
-/
import StyleTypings.Text.Basic

namespace StyleTypings

/-- The shape of the declarations for a style sheet. -/
inductive ExportType where
  /-- One constant for each class, declared without a value. -/
  | named
  /-- An interface of all classes, and a default export. -/
  | default
  /-- One constant for each class, which holds the name of the class. -/
  | values
deriving DecidableEq, Repr

namespace ExportType

/-- All shapes, in the order in which messages list them. -/
def all : List ExportType := [named, default, values]

/-- The word for a shape. -/
def name : ExportType → Text
  | named => ("named" : Text)
  | default => ("default" : Text)
  | values => ("values" : Text)

/-- The shapes under their words. -/
def choices : List (Text × ExportType) := all.map fun e => (e.name, e)

/-- Why a text is no shape. -/
def unknown (t : Text) : Text :=
  ("unknown export type '" : Text) ++ t ++ ("' (expected named, default or values)" : Text)

/-- The shape with a name. -/
def parse (t : Text) : Except Text ExportType :=
  match choices.lookup t with
  | some e => .ok e
  | none => .error (unknown t)

end ExportType

/-- What ends a line of the declarations. -/
inductive LineEnding where
  | lf
  | cr
  | crLf
deriving DecidableEq, Repr

namespace LineEnding

def text : LineEnding → Text
  | lf => ['\n']
  | cr => ['\r']
  | crLf => ['\r', '\n']

/-- The line ending as settings spell it. -/
def escaped : LineEnding → Text
  | lf => ['\\', 'n']
  | cr => ['\\', 'r']
  | crLf => ['\\', 'r', '\\', 'n']

def unknown (t : Text) : Text :=
  ("unknown line ending '" : Text) ++ t ++ ("' (expected \\n, \\r or \\r\\n)" : Text)

/-- The line ending that a text spells, with escapes or with the characters
themselves. -/
def parse (t : Text) : Except Text LineEnding :=
  match Text.replace (Text.replace t ['\\', 'n'] ['\n']) ['\\', 'r'] ['\r'] with
  | ['\n'] => .ok lf
  | ['\r'] => .ok cr
  | ['\r', '\n'] => .ok crLf
  | _ => .error (unknown t)

end LineEnding

end StyleTypings
