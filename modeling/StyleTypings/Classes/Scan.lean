/-
Class scan — the classes that a selector mentions.

A class is a name right after a point.  Names inside strings, attribute selectors and
brackets other than the arguments of functions are no classes.  What `:global(...)`
encloses belongs to no module and is left out, and so is everything after a bare
`:global`, up to the end of the arguments it stands in.
-/
import StyleTypings.Css.Component

namespace StyleTypings.Classes

/-- What stands right before a component. -/
inductive Mark where
  | other
  | point
  | colon
deriving DecidableEq, Repr

/-- What a token is for the component after it. -/
def Mark.ofToken : Css.Token → Mark
  | .delim '.' => .point
  | .colon => .colon
  | _ => .other

/-- Whether a name is the word `global`, whatever the case of its letters. -/
def isGlobal (name : Text) : Bool := Text.sameAscii name "global"

/-- Whether everything after a token is left out. -/
def ends (before : Mark) : Css.Token → Bool
  | .ident name => before == .colon && isGlobal name
  | _ => false

/-- The class that a token names. -/
def ofToken (before : Mark) : Css.Token → List Text
  | .ident name => if before = .point then [name] else []
  | _ => []

/-- Whether classes inside a bracket count. -/
def enters (before : Mark) : Css.Opener → Bool
  | .function name => ! (before == .colon && isGlobal name)
  | _ => false

mutual

/-- The classes inside a component. -/
def within (before : Mark) : Css.Component → List Text
  | .token t => ofToken before t
  | .block opener content => if enters before opener then scan .other content else []

/-- The classes that components mention, in order. -/
def scan (before : Mark) : List Css.Component → List Text
  | [] => []
  | c :: rest =>
    match c with
    | .token t => if ends before t then [] else within before c ++ scan (Mark.ofToken t) rest
    | .block _ _ => within before c ++ scan .other rest

end

/-- The classes that a selector mentions, in order. -/
def ofSelector (selector : Text) : List Text := scan .other (Css.components selector)

end StyleTypings.Classes
