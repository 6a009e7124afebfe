/-
Bindings — which identifiers a constant can have.

A reserved word cannot name a constant, and neither can a name with a hyphen.  No
other name is refused.
-/
import StyleTypings.Text.Basic

namespace StyleTypings

namespace Identifier

/-- The words reserved in all scripts. -/
def commonWords : List Text := List.map String.toList
  ["break", "case", "catch", "class", "const", "continue", "debugger", "default", "delete",
    "do", "else", "enum", "export", "extends", "false", "finally", "for", "function", "if",
    "import", "in", "instanceof", "new", "null", "return", "super", "switch", "this", "throw",
    "true", "try", "typeof", "var", "void", "while", "with"]

/-- The words reserved in strict code only. -/
def strictWords : List Text := List.map String.toList
  ["implements", "interface", "let", "package", "private", "protected", "public", "static",
    "yield"]

/-- The words reserved in modules only. -/
def moduleWords : List Text := ["await"]

/-- Whether a name is reserved in the strict code of a module. -/
def isReserved (name : Text) : Bool :=
  commonWords.contains name || strictWords.contains name || moduleWords.contains name

/-- Why a name cannot be that of a constant. -/
inductive Refusal where
  | reservedKeyword
  | containsDashes
deriving DecidableEq, Repr

/-- The warning that a name is skipped. -/
def Refusal.warning (name : Text) : Refusal → Text
  | .reservedKeyword =>
    ("[SKIPPING] '" : Text) ++ name ++
      ("' is a reserved keyword (consider renaming or using --export-type default)." : Text)
  | .containsDashes =>
    ("[SKIPPING] '" : Text) ++ name ++
      ("' contains dashes (consider using 'camel' or 'dashes' for --name-format or " : Text) ++
      ("using --export-type default)." : Text)

/-- Why a name cannot be that of a constant, if it cannot.  A reserved word is refused
as such first. -/
def refusal? (name : Text) : Option Refusal :=
  if isReserved name then some .reservedKeyword
  else if name.contains '-' then some .containsDashes
  else none

end Identifier

end StyleTypings
