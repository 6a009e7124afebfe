/-
Name formats — from a class to the identifier that a script uses for it.
-/
import StyleTypings.Text.Words

namespace StyleTypings

inductive NameFormat where
  /-- Camel case, for names with something between their words. -/
  | camel
  /-- Lower case with hyphens. -/
  | kebab
  /-- The same as `kebab`. -/
  | param
  /-- Camel case, for names with hyphens. -/
  | dashes
  /-- The name as it is. -/
  | none
deriving DecidableEq, Repr

namespace NameFormat

/-- All formats, in the order in which messages list them. -/
def all : List NameFormat := [camel, kebab, param, dashes, none]

/-- The word for a format. -/
def name : NameFormat → Text
  | camel => ("camel" : Text)
  | kebab => ("kebab" : Text)
  | param => ("param" : Text)
  | dashes => ("dashes" : Text)
  | none => ("none" : Text)

/-- The formats under their words. -/
def choices : List (Text × NameFormat) := all.map fun f => (f.name, f)

/-- Whether a character separates words in a class name. -/
def isSeparator (c : Char) : Bool := c == '-' || c == '_' || isBlank c

/-- A class name in camel case, if there is something between its words. -/
def camelName (t : Text) : Text := if t.any isSeparator then Text.camelCase t else t

/-- The identifier that a format gives a class. -/
def apply (f : NameFormat) (t : Text) : Text :=
  match f with
  | camel => camelName t
  | kebab => Text.kebabCase t
  | param => Text.kebabCase t
  | dashes => if t.contains '-' then camelName t else t
  | none => t

end NameFormat

end StyleTypings
