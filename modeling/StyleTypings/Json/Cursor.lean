/-
Cursors — where reading stands in a JSON text, and how it fails.

A cursor is the rest of the text with the position before it.  Columns count bytes
from the last line feed on.  A text can be malformed, which is no JSON at all, or
unfit, which is JSON that says something nobody asked for; messages name the position
where reading noticed it, and for most faults that is one byte further on.
-/
import StyleTypings.Text.Quoted

namespace StyleTypings.Json

/-- A line, and how many bytes of it have been passed. -/
structure Position where
  line : Nat
  column : Nat
deriving DecidableEq, Repr

namespace Position

/-- The position after one byte of a text that goes on with a character. -/
def nextByte (p : Position) (c : Char) : Position :=
  if c = '\n' then ⟨p.line + 1, 0⟩ else { p with column := p.column + 1 }

/-- The position after a character. -/
def next (p : Position) (c : Char) : Position :=
  if c = '\n' then ⟨p.line + 1, 0⟩ else { p with column := p.column + c.utf8Size }

def after (p : Position) (t : Text) : Position := t.foldl next p

/-- The position after so many bytes of a text. -/
def afterBytes (p : Position) : Nat → Text → Position
  | _, [] => p
  | n, c :: rest =>
    if c.utf8Size ≤ n then (p.next c).afterBytes (n - c.utf8Size) rest
    else { p with column := p.column + n }

end Position

/-- Why a text is no JSON. -/
inductive Fault where
  | endInList
  | endInObject
  | endInString
  | endInValue
  | expectedColon
  | expectedListCommaOrEnd
  | expectedObjectCommaOrEnd
  | expectedIdent
  | expectedValue
  | invalidEscape
  | invalidNumber
  | numberOutOfRange
  | controlCharacter
  | keyNoString
  | loneSurrogate
  | trailingComma
  | trailingCharacters
  | endOfHexEscape
deriving DecidableEq, Repr

/-- The wording of a fault. -/
def Fault.message : Fault → Text
  | .endInList => ("EOF while parsing a list" : Text)
  | .endInObject => ("EOF while parsing an object" : Text)
  | .endInString => ("EOF while parsing a string" : Text)
  | .endInValue => ("EOF while parsing a value" : Text)
  | .expectedColon => ("expected `:`" : Text)
  | .expectedListCommaOrEnd => ("expected `,` or `]`" : Text)
  | .expectedObjectCommaOrEnd => ("expected `,` or `\x7d`" : Text)
  | .expectedIdent => ("expected ident" : Text)
  | .expectedValue => ("expected value" : Text)
  | .invalidEscape => ("invalid escape" : Text)
  | .invalidNumber => ("invalid number" : Text)
  | .numberOutOfRange => ("number out of range" : Text)
  | .controlCharacter =>
    ("control character (\\u0000-\\u001F) found while parsing a string" : Text)
  | .keyNoString => ("key must be a string" : Text)
  | .loneSurrogate => ("lone leading surrogate in hex escape" : Text)
  | .trailingComma => ("trailing comma" : Text)
  | .trailingCharacters => ("trailing characters" : Text)
  | .endOfHexEscape => ("unexpected end of hex escape" : Text)

inductive Cause where
  | malformed (fault : Fault)
  /-- The text is JSON, but not what was asked for. -/
  | unfit (message : Text)
deriving DecidableEq, Repr

/-- Why reading fails, and where that is noticed. -/
structure ReadError where
  cause : Cause
  position : Position
deriving DecidableEq, Repr

namespace ReadError

/-- The wording of an error without its position. -/
def message (e : ReadError) : Text :=
  match e.cause with
  | .malformed f => f.message
  | .unfit m => m

def located (e : ReadError) : Text :=
  e.message ++ (" at line " : Text) ++ Text.ofNat e.position.line ++ (" column " : Text) ++
    Text.ofNat e.position.column

end ReadError

/-- Where reading stands. -/
structure Cursor where
  rest : Text
  position : Position
deriving DecidableEq, Repr

namespace Cursor

/-- The beginning of a text. -/
def ofText (t : Text) : Cursor := ⟨t, ⟨1, 0⟩⟩

/-- The position of the byte after the next one. -/
def peekPosition (c : Cursor) : Position :=
  match c.rest with
  | [] => c.position
  | d :: _ => c.position.nextByte d

/-- The cursor so many characters further on. -/
def advance : Nat → Cursor → Cursor
  | 0, c => c
  | n + 1, c =>
    match c.rest with
    | [] => c
    | d :: rest => advance n ⟨rest, c.position.next d⟩

/-- Whether a character is white space in JSON. -/
def isSpace (c : Char) : Bool := c == ' ' || c == '\n' || c == '\t' || c == '\r'

/-- The cursor after the white space here. -/
def skipSpace (c : Cursor) : Cursor :=
  advance (c.rest.takeWhile isSpace).length c

end Cursor

/-- Reading goes on with a cursor, or fails. -/
abbrev Reader := StateT Cursor (Except ReadError)

namespace Reader

/-- Failure noticed where reading stands. -/
def failHere {α : Type} (f : Fault) : Reader α := do
  throw ⟨.malformed f, (← get).position⟩

/-- Failure noticed on looking at the next character. -/
def failAhead {α : Type} (f : Fault) : Reader α := do
  throw ⟨.malformed f, (← get).peekPosition⟩

/-- The next character that is no white space, which stays where it is. -/
def peek : Reader (Option Char) := do
  modify Cursor.skipSpace
  return (← get).rest.head?

/-- The next character passed. -/
def skip : Reader Unit := modify (Cursor.advance 1)

end Reader

end StyleTypings.Json
