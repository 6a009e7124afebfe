/-
Components of CSS — tokens with their brackets matched.

A bracket and all up to its partner is one component; a bracket that the end of
the text leaves open is closed there, and a closing bracket without an open
partner is an ordinary token.  The tree is built in one pass over the tokens with
a stack of the brackets that are open.
-/
import StyleTypings.Css.Token

namespace StyleTypings.Css

/-- What opens a bracket. -/
inductive Opener where
  | function (name : Text)
  | paren
  | square
  | curly

inductive Component where
  | token (t : Token)
  | block (opener : Opener) (content : List Component)

/-- What a token opens. -/
def Token.opener? : Token → Option Opener
  | .function name => some (.function name)
  | .openParen => some .paren
  | .openSquare => some .square
  | .openCurly => some .curly
  | _ => none

def Opener.closedBy : Opener → Token → Bool
  | .function _, .closeParen => true
  | .paren, .closeParen => true
  | .square, .closeSquare => true
  | .curly, .closeCurly => true
  | _, _ => false

/-- The brackets that are open, innermost first, each with its content so far,
last first; and the components outside all of them, last first. -/
structure Nesting where
  opened : List (Opener × List Component)
  outside : List Component

namespace Nesting

/-- A component put where reading stands. -/
def add (c : Component) : Nesting → Nesting
  | ⟨[], outside⟩ => ⟨[], c :: outside⟩
  | ⟨(o, content) :: opened, outside⟩ => ⟨(o, c :: content) :: opened, outside⟩

/-- The innermost bracket closed. -/
def close : Nesting → Nesting
  | ⟨[], outside⟩ => ⟨[], outside⟩
  | ⟨(o, content) :: opened, outside⟩ => add (.block o content.reverse) ⟨opened, outside⟩

/-- The next token taken in. -/
def step (n : Nesting) (t : Token) : Nesting :=
  match t.opener? with
  | some o => { n with opened := (o, []) :: n.opened }
  | none =>
    match n.opened with
    | (o, _) :: _ => if o.closedBy t then n.close else n.add (.token t)
    | [] => n.add (.token t)

/-- All brackets closed at the end of the text, given how many there are. -/
def closeAll : Nat → Nesting → List Component
  | 0, n => n.outside.reverse
  | k + 1, n => closeAll k n.close

end Nesting

def componentsOf (ts : List Token) : List Component :=
  let n := ts.foldl Nesting.step ⟨[], []⟩
  Nesting.closeAll n.opened.length n

def components (t : Text) : List Component := componentsOf (tokens t)

end StyleTypings.Css
