/-
Nodes — a style sheet as a tree of statements and blocks.

A text without comments is read in two passes.  The first cuts it into pieces:
statements that a semicolon or brace ends, the preludes that an opening brace
ends, and closing braces.  Strings, escaped characters, interpolations and
whatever stands in parentheses are never cut.  The second pass matches the braces.

Every node carries a tag.  A tree that has just been read has line numbers for
tags; before it is evaluated, its nodes are numbered, so that a tag tells a
definition from all others.
-/
import StyleTypings.Less.Error

namespace StyleTypings.Less

/-- A node of a style sheet; `ι` is the type of tags. -/
inductive Node (ι : Type) where
  /-- Text up to a semicolon or the end of its block. -/
  | statement (tag : ι) (text : Text)
  /-- What stands before a brace, and what stands inside the braces. -/
  | block (tag : ι) (prelude : Text) (body : List (Node ι))
  /-- The nodes of a file in place of the directive that imports it. -/
  | imported (file : Location) (reference : Bool) (nodes : List (Node ι))

/-! ## Pieces -/

/-- A statement, the beginning of a block or the end of one, with its line. -/
inductive Piece where
  | statement (line : Nat) (text : Text)
  | opening (line : Nat) (prelude : Text)
  | closing (line : Nat)
deriving DecidableEq, Repr

namespace Reading

/-- What the characters read so far have begun. -/
inductive Mode where
  | plain
  | escaped
  /-- After an `@`. -/
  | sign
  | string (quote : Char)
  | stringEscaped (quote : Char)
  | interpolation
deriving DecidableEq, Repr

/-- How far the cutting has come. -/
structure Progress where
  mode : Mode
  /-- The line being read. -/
  line : Nat
  /-- The line where the current piece begins. -/
  start : Nat
  /-- How many parentheses are open. -/
  parens : Nat
  /-- The current piece, last character first. -/
  current : Text
  /-- The pieces so far, last first. -/
  pieces : List Piece

/-- The pieces with the current one, if it is not blank, as a statement. -/
def Progress.flushed (p : Progress) : List Piece :=
  let text := Text.collapse p.current.reverse
  if text.isEmpty then p.pieces else .statement p.start text :: p.pieces

/-- A character added to the current piece. -/
def Progress.push (p : Progress) (c : Char) (mode : Mode) : Progress :=
  { p with current := c :: p.current, mode }

/-- The next character outside strings and interpolations. -/
def Progress.plainStep (p : Progress) (c : Char) : Progress :=
  if Text.isQuote c then p.push c (.string c)
  else if c = '\\' then p.push c .escaped
  else if c = '@' then p.push c .sign
  else if c = '(' then { p.push c .plain with parens := p.parens + 1 }
  else if c = ')' then { p.push c .plain with parens := p.parens - 1 }
  else if p.parens ≠ 0 then p.push c .plain
  else if c = '{' then
    let prelude := Text.collapse p.current.reverse
    { p with mode := .plain, current := [], pieces := .opening p.start prelude :: p.pieces }
  else if c = '}' then
    { p with mode := .plain, current := [], pieces := .closing p.line :: p.flushed }
  else if c = ';' then { p with mode := .plain, current := [], pieces := p.flushed }
  else p.push c .plain

/-- The line count and the beginning of the current piece brought up to a character.
A piece begins at its first character that is not blank. -/
def Progress.located (p : Progress) (c : Char) : Progress :=
  let line := if c = '\n' then p.line + 1 else p.line
  let start := if ! isBlank c && p.current.all isBlank then line else p.start
  { p with line, start }

/-- The next character. -/
def Progress.step (p : Progress) (c : Char) : Progress :=
  let p := p.located c
  match p.mode with
  | .plain => p.plainStep c
  | .sign => if c = '{' then p.push c .interpolation else p.plainStep c
  | .escaped => p.push c .plain
  | .string quote =>
    if c = '\\' then p.push c (.stringEscaped quote)
    else if c = quote then p.push c .plain
    else p.push c (.string quote)
  | .stringEscaped quote => p.push c (.string quote)
  | .interpolation => p.push c (if c = '}' then .plain else .interpolation)

/-- What the end of the text leaves unfinished in the current piece. -/
def Progress.flaw? (p : Progress) : Option Flaw :=
  match p.mode with
  | .string _ => some ⟨p.start, .unterminatedString⟩
  | .stringEscaped _ => some ⟨p.start, .unterminatedString⟩
  | .interpolation => some ⟨p.start, .unterminatedInterpolation⟩
  | _ => if p.parens = 0 then none else some ⟨p.start, .missingParenthesis⟩

/-- Nothing read yet. -/
def Progress.initial : Progress := ⟨.plain, 1, 1, 0, [], []⟩

end Reading

/-- The pieces of a text, and what its end leaves unfinished. -/
def pieces (t : Text) : List Piece × Option Flaw :=
  let p := t.foldl Reading.Progress.step .initial
  (p.flushed.reverse, p.flaw?)

/-! ## Braces -/

/-- A block that is still open: where it begins, its prelude, and the nodes before
it, last first. -/
structure OpenBlock where
  line : Nat
  prelude : Text
  before : List (Node Nat)

/-- The nodes that pieces make up, given the blocks that are open, innermost first,
and the nodes so far of the innermost, last first. -/
def nodesOfPieces (flaw : Option Flaw) :
    List OpenBlock → List (Node Nat) → List Piece → Except Flaw (List (Node Nat))
  | opened, nodes, [] =>
    match flaw, opened with
    | some f, _ => .error f
    | none, o :: _ => .error ⟨o.line, .missingBrace⟩
    | none, [] => .ok nodes.reverse
  | opened, nodes, .statement line text :: rest =>
    nodesOfPieces flaw opened (.statement line text :: nodes) rest
  | opened, nodes, .opening line prelude :: rest =>
    nodesOfPieces flaw (⟨line, prelude, nodes⟩ :: opened) [] rest
  | [], _, .closing line :: _ => .error ⟨line, .unexpectedBrace⟩
  | o :: opened, nodes, .closing _ :: rest =>
    nodesOfPieces flaw opened (.block o.line o.prelude nodes.reverse :: o.before) rest

/-- The nodes of a text without comments, tagged with their lines. -/
def readNodes (t : Text) : Except Flaw (List (Node Nat)) :=
  let (ps, flaw) := pieces t
  nodesOfPieces flaw [] [] ps

/-! ## Numbering -/

mutual

/-- A node numbered from `next` on, and the first number left over. -/
def Node.number {ι : Type} (next : Nat) : Node ι → Node Nat × Nat
  | .statement _ text => (.statement next text, next + 1)
  | .block _ prelude body =>
    let (body, after) := numberNodes (next + 1) body
    (.block next prelude body, after)
  | .imported file reference nodes =>
    let (nodes, after) := numberNodes next nodes
    (.imported file reference nodes, after)

/-- Nodes numbered from `next` on, and the first number left over. -/
def numberNodes {ι : Type} (next : Nat) : List (Node ι) → List (Node Nat) × Nat
  | [] => ([], next)
  | n :: rest =>
    let (n, after) := n.number next
    let (rest, after) := numberNodes after rest
    (n :: rest, after)

end

/-- The nodes with distinct numbers for tags. -/
def numbered {ι : Type} (nodes : List (Node ι)) : List (Node Nat) := (numberNodes 0 nodes).1

end StyleTypings.Less
