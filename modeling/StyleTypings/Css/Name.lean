/-
Names of CSS — identifiers and the escapes inside them.

A name is a run of letters, digits, hyphens, underscores, characters above ASCII
and escapes.  An escape is a backslash and either up to six hexadecimal digits
with at most one blank after them, or any one character; it stands for the code
point of the digits or for the character.  A code point that no character has,
the NUL character and an escape at the end of the text all stand for the
replacement character.

Reading proceeds one character at a time.  Where an escape has been read ahead,
`skip` counts its characters that are still to be passed, so that every reader
here recurses on the text itself.
-/
import StyleTypings.Text.Basic

namespace StyleTypings.Css

/-- What stands for a character that cannot be shown. -/
def replacementChar : Char := Char.ofNat 0xFFFD

/-- The characters that end a line in CSS. -/
def isNewline (c : Char) : Bool := c == '\n' || c == '\r' || c == Char.ofNat 0xC

/-- The blanks of CSS: space, tab and the ends of lines. -/
def isCssBlank (c : Char) : Bool := c == ' ' || c == '\t' || isNewline c

/-- Whether the text begins with the end of a line. -/
def atNewline : Text → Bool
  | c :: _ => isNewline c
  | [] => false

/-- A hexadecimal digit. -/
def isHexDigit (c : Char) : Bool :=
  c.isDigit || ('a' ≤ c && c ≤ 'f') || ('A' ≤ c && c ≤ 'F')

def hexValue (c : Char) : Nat :=
  if c.isDigit then c.toNat - '0'.toNat
  else if 'a' ≤ c && c ≤ 'f' then c.toNat - 'a'.toNat + 10
  else c.toNat - 'A'.toNat + 10

/-- The number that hexadecimal digits denote. -/
def hexNumber (digits : Text) : Nat := digits.foldl (fun n c => 16 * n + hexValue c) 0

/-- The character with a code point, or the replacement character. -/
def charOfCode (n : Nat) : Char := if n ≠ 0 ∧ n.isValidChar then Char.ofNat n else replacementChar

/-- How many characters the one blank after hexadecimal digits takes: none, one,
or two for a carriage return with its line feed. -/
def blankLength : Text → Nat
  | '\r' :: '\n' :: _ => 2
  | c :: _ => if isCssBlank c then 1 else 0
  | [] => 0

/-- What the escape after a backslash stands for, and how many characters it
takes. -/
def escape (t : Text) : Char × Nat :=
  match t with
  | [] => (replacementChar, 0)
  | c :: _ =>
    if isHexDigit c then
      let digits := (t.take 6).takeWhile isHexDigit
      (charOfCode (hexNumber digits), digits.length + blankLength (t.drop digits.length))
    else if c = '\x00' then (replacementChar, 1)
    else (c, 1)

/-- A character that can begin a name by itself. -/
def isNameStart (c : Char) : Bool := c.isAlpha || c == '_' || c == '\x00' || 128 ≤ c.toNat

/-- A character that can stand in a name by itself. -/
def isNamePart (c : Char) : Bool := isNameStart c || c.isDigit || c == '-'

/-- Whether the text begins with an identifier. -/
def startsName : Text → Bool
  | [] => false
  | ['-'] => false
  | '-' :: c :: _ => isNameStart c || c == '-' || c == '\\'
  | '\\' :: rest => ! atNewline rest
  | c :: _ => isNameStart c

/-- The name at the beginning of the text, decoded, and the text after it. -/
def takeName : Nat → Text → Text × Text
  | _, [] => ([], [])
  | skip + 1, _ :: rest => takeName skip rest
  | 0, c :: rest =>
    if c = '\\' then
      if atNewline rest then ([], c :: rest)
      else
        let (e, n) := escape rest
        let (name, after) := takeName n rest
        -- A backslash at the very end stands for the replacement character.
        (e :: name, after)
    else if isNamePart c then
      let (name, after) := takeName 0 rest
      ((if c = '\x00' then replacementChar else c) :: name, after)
    else ([], c :: rest)

/-- The string up to its closing quote, decoded, and the text after the quote.  A
string that the end of the text cuts short is closed there; one that the end of a
line cuts short is not a string. -/
def takeString (quote : Char) : Nat → Text → Option Text × Text
  | _, [] => (some [], [])
  | skip + 1, _ :: rest => takeString quote skip rest
  | 0, c :: rest =>
    if c = quote then (some [], rest)
    else if isNewline c then (none, c :: rest)
    else if c = '\\' then
      if rest.isEmpty then (some [], [])
      else if atNewline rest then takeString quote (blankLength rest) rest
      else
        let (e, n) := escape rest
        let (content, after) := takeString quote n rest
        (content.map (e :: ·), after)
    else
      let (content, after) := takeString quote 0 rest
      (content.map ((if c = '\x00' then replacementChar else c) :: ·), after)

end StyleTypings.Css
