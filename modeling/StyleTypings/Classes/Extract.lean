/-
Class names — the classes of a style sheet with their identifiers.

Every class counts once, where it first appears.  The identifier depends on the
class alone, so two classes may get the same one.
-/
import StyleTypings.Classes.Scan
import StyleTypings.Classes.NameFormat
import StyleTypings.Less.Compile

namespace StyleTypings

/-- A class of a style sheet: its identifier, and its name. -/
structure ClassName where
  identifier : Text
  name : Text
deriving DecidableEq, Repr

/-- The texts of a list that stand in none of the places before, `seen` being those
already met. -/
def firstSeen (seen : List Text) : List Text → List Text
  | [] => []
  | t :: rest => if seen.contains t then firstSeen seen rest else t :: firstSeen (t :: seen) rest

/-- The class names of a style sheet, in the order of their first appearance. -/
def classNames (f : NameFormat) (s : Less.Stylesheet) : List ClassName :=
  (firstSeen [] (s.selectors.flatMap Classes.ofSelector)).map fun t => ⟨f.apply t, t⟩

def extract (disk : Disk) (f : NameFormat) (file : Path) : Except Less.Halt (List ClassName) :=
  (Less.compile disk file).map (classNames f)

end StyleTypings
