/-
Splitting — lists cut where their separators stand, and nowhere else.

A separator inside a string, inside brackets or after a backslash does not
separate.  The scan that finds this out keeps three things: whether a backslash
precedes, which quote is open, and how many brackets are.
-/
import StyleTypings.Text.Basic

namespace StyleTypings.Less

/-- What the characters read so far leave open. -/
structure Openness where
  escaped : Bool
  quote : Option Char
  depth : Nat
deriving DecidableEq, Repr

namespace Openness

/-- Nothing is open. -/
def none : Openness := ⟨false, .none, 0⟩

/-- What is open after a character. -/
def after (s : Openness) (c : Char) : Openness :=
  if s.escaped then { s with escaped := false }
  else if c = '\\' then { s with escaped := true }
  else
    match s.quote with
    | some q => if c = q then { s with quote := .none } else s
    | .none =>
      if Text.isQuote c then { s with quote := some c }
      else if c = '(' || c = '[' then { s with depth := s.depth + 1 }
      else if c = ')' || c = ']' then { s with depth := s.depth - 1 }
      else s

end Openness

/-- A character put before the first of several texts. -/
def consFirst (c : Char) : List Text → List Text
  | [] => [[c]]
  | t :: rest => (c :: t) :: rest

/-- The parts of a text between separators, given what is open before it. -/
def splitFrom (separator : Char) (s : Openness) : Text → List Text
  | [] => [[]]
  | c :: rest =>
    if s = .none && c = separator then [] :: splitFrom separator .none rest
    else consFirst c (splitFrom separator (s.after c) rest)

/-- The parts of a text between the separators outside strings and brackets. -/
def splitTop (separator : Char) (t : Text) : List Text := splitFrom separator .none t

/-- The arguments in a text: separated by semicolons if there are any, else by
commas; blank ones do not count. -/
def splitArguments (t : Text) : List Text :=
  let parts := splitTop ';' t
  let parts := if parts.length > 1 then parts else splitTop ',' t
  (parts.map Text.trim).filter (! ·.isEmpty)

/-- What stands inside and after parentheses, given the text after the opening one
and how many more are open. -/
def closeParens : Nat → Text → Option (Text × Text)
  | _, [] => none
  | 0, ')' :: rest => some ([], rest)
  | depth + 1, ')' :: rest =>
    (closeParens depth rest).map fun (inside, after) => (')' :: inside, after)
  | depth, '(' :: rest =>
    (closeParens (depth + 1) rest).map fun (inside, after) => ('(' :: inside, after)
  | depth, c :: rest => (closeParens depth rest).map fun (inside, after) => (c :: inside, after)

end StyleTypings.Less
