/-
Comments — style sheets without them.

A block comment becomes the line feeds inside it and one space; a comment to the
end of the line vanishes.  Strings, escaped characters and the arguments of
`url(...)` are copied as they are, so comment marks inside them are no comments.

Reading goes one character at a time; what the characters before have begun is
the mode.  Lines are counted so that a string or comment that is never closed is
reported at the line where it begins.
-/
import StyleTypings.Less.Error
import StyleTypings.Text.Letter

namespace StyleTypings.Less

namespace Comment

/-- What the characters read so far have begun. -/
inductive Mode where
  | plain
  /-- After a backslash outside strings. -/
  | escaped
  /-- Inside a string that begins at a line. -/
  | string (quote : Char) (start : Nat)
  /-- After a backslash inside a string. -/
  | stringEscaped (quote : Char) (start : Nat)
  /-- Between the slash and the asterisk that begin a comment. -/
  | opening (start : Nat)
  /-- Inside a block comment that begins at a line. -/
  | block (start : Nat)
  /-- Between the asterisk and the slash that end a comment. -/
  | closing
  /-- Inside a comment to the end of the line. -/
  | line
  /-- Inside the argument of `url(...)`. -/
  | address
deriving DecidableEq, Repr

/-- Whether `url(` begins here, after the character `before`. -/
def startsAddress (before : Char) (t : Text) : Bool :=
  ! isIdentChar before && Text.sameAscii (t.take 4) "url("

def Mode.afterPlain (line : Nat) (before c : Char) (rest : Text) : Mode :=
  if Text.isQuote c then .string c line
  else if c = '\\' then .escaped
  else if c = '/' && rest.head? == some '*' then .opening line
  else if c = '/' && rest.head? == some '/' then .line
  else if startsAddress before (c :: rest) then .address
  else .plain

def Mode.after (line : Nat) (before c : Char) (rest : Text) : Mode → Mode
  | .plain => Mode.afterPlain line before c rest
  | .escaped => .plain
  | .string quote start =>
    if c = '\\' then .stringEscaped quote start
    else if c = quote then .plain
    else .string quote start
  | .stringEscaped quote start => .string quote start
  | .opening start => .block start
  | .block start =>
    if c = '*' && rest.head? == some '/' then .closing else .block start
  | .closing => .plain
  | .line => if c = '\n' then .plain else .line
  | .address => if c = ')' then .plain else .address

/-- What a character leaves behind, given the mode before and after it. -/
def written (c : Char) : Mode → Mode → Text
  | .plain, .opening _ => []
  | .plain, .line => []
  | .opening _, _ => []
  | .block _, _ => if c = '\n' then ['\n'] else []
  | .closing, _ => [' ']
  | .line, _ => if c = '\n' then ['\n'] else []
  | _, _ => [c]

/-- Whether a line feed counts.  One that is escaped outside strings does not. -/
def Mode.counts : Mode → Bool
  | .escaped => false
  | _ => true

def Mode.atEnd : Mode → Except Flaw Text
  | .string _ start => .error ⟨start, .unterminatedString⟩
  | .stringEscaped _ start => .error ⟨start, .unterminatedString⟩
  | .opening start => .error ⟨start, .unterminatedComment⟩
  | .block start => .error ⟨start, .unterminatedComment⟩
  | _ => .ok []

/-- A text without its comments, read from a mode on; `before` is the character
that stands before it. -/
def stripFrom (mode : Mode) (line : Nat) (before : Char) : Text → Except Flaw Text
  | [] => mode.atEnd
  | c :: rest =>
    let next := mode.after line before c rest
    let line := if c = '\n' && mode.counts then line + 1 else line
    (stripFrom next line c rest).map (written c mode next ++ ·)

/-- A text without its comments. -/
def strip (t : Text) : Except Flaw Text := stripFrom .plain 1 ' ' t

end Comment

end StyleTypings.Less
