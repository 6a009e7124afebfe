/-
Strings of JSON — what stands between quotes.

A string ends at the first quote that is not escaped.  Control characters have to be
escaped in it.  An escape by number gives a unit of UTF-16; of two units that make up
one character the second has to follow the first.
-/
import StyleTypings.Json.Cursor

namespace StyleTypings.Json

/-- The value of a hexadecimal digit. -/
def hexDigit? (c : Char) : Option Nat :=
  if c.isDigit then some (c.toNat - '0'.toNat)
  else if 'a' ≤ c && c ≤ 'f' then some (c.toNat - 'a'.toNat + 10)
  else if 'A' ≤ c && c ≤ 'F' then some (c.toNat - 'A'.toNat + 10)
  else none

/-- The number that hexadecimal digits denote. -/
def hexNumber? (t : Text) : Option Nat :=
  (t.mapM hexDigit?).map fun ds => ds.foldl (fun n d => 16 * n + d) 0

/-- The number of an escape, given the text after its `u`.  It takes four bytes. -/
def readUnit (p : Position) (t : Text) : Except ReadError Nat :=
  if Text.utf8Size t < 4 then .error ⟨.malformed .endInString, p.after t⟩
  else
    match hexNumber? (t.take 4) with
    | some n => .ok n
    | none => .error ⟨.malformed .invalidEscape, p.afterBytes 4 t⟩

/-- Whether a unit is the first of two. -/
def isLeading (n : Nat) : Bool := 0xD800 ≤ n && n ≤ 0xDBFF

/-- Whether a unit is the second of two. -/
def isTrailing (n : Nat) : Bool := 0xDC00 ≤ n && n ≤ 0xDFFF

/-- The second unit of a character, given the text after the first. -/
def readTrailing (p : Position) : Text → Except ReadError Nat
  | '\\' :: 'u' :: rest => do
    let p := (p.next '\\').next 'u'
    let n ← readUnit p rest
    if isTrailing n then .ok n
    else .error ⟨.malformed .loneSurrogate, p.after (rest.take 4)⟩
  | '\\' :: c :: _ => .error ⟨.malformed .endOfHexEscape, (p.next '\\').nextByte c⟩
  | '\\' :: [] => .error ⟨.malformed .endInString, p.next '\\'⟩
  | c :: _ => .error ⟨.malformed .endOfHexEscape, p.nextByte c⟩
  | [] => .error ⟨.malformed .endInString, p⟩

/-- The character of an escape by number, given the text after its `u`, and how many
characters it takes. -/
def readNumbered (p : Position) (t : Text) : Except ReadError (Char × Nat) := do
  let n ← readUnit p t
  let p := p.after (t.take 4)
  if isTrailing n then .error ⟨.malformed .loneSurrogate, p⟩
  else if isLeading n then
    let m ← readTrailing p (t.drop 4)
    .ok (Char.ofNat (0x10000 + (n - 0xD800) * 0x400 + (m - 0xDC00)), 10)
  else .ok (Char.ofNat n, 4)

/-- The character that a letter after a backslash stands for. -/
def escaped? : Char → Option Char
  | '"' => some '"'
  | '\\' => some '\\'
  | '/' => some '/'
  | 'b' => some '\x08'
  | 'f' => some '\x0c'
  | 'n' => some '\n'
  | 'r' => some '\r'
  | 't' => some '\t'
  | _ => none

/-- The character of an escape, given the text after its backslash, and how many
characters it takes. -/
def readEscape (p : Position) : Text → Except ReadError (Char × Nat)
  | [] => .error ⟨.malformed .endInString, p⟩
  | c :: rest =>
    if c = 'u' then (readNumbered (p.next c) rest).map fun (d, n) => (d, n + 1)
    else
      match escaped? c with
      | some d => .ok (d, 1)
      | none => .error ⟨.malformed .invalidEscape, p.nextByte c⟩

/-- The content of a string and the cursor after it, given the text after its opening
quote; `skip` counts characters that are still to be passed, and `content` holds the
characters so far, last first. -/
def readStringFrom (p : Position) (skip : Nat) (content : Text) :
    Text → Except ReadError (Text × Cursor)
  | [] => .error ⟨.malformed .endInString, p⟩
  | c :: rest =>
    match skip with
    | skip + 1 => readStringFrom (p.next c) skip content rest
    | 0 =>
      if c = '"' then .ok (content.reverse, ⟨rest, p.next c⟩)
      else if c = '\\' then
        match readEscape (p.next c) rest with
        | .ok (d, taken) => readStringFrom (p.next c) taken (d :: content) rest
        | .error e => .error e
      else if c.toNat < 32 then .error ⟨.malformed .controlCharacter, p.next c⟩
      else readStringFrom (p.next c) 0 (c :: content) rest

/-- How many characters an escape takes, given the text after its backslash, where its
character does not matter. -/
def skipEscape (p : Position) : Text → Except ReadError Nat
  | [] => .error ⟨.malformed .endInString, p⟩
  | c :: rest =>
    if c = 'u' then (readUnit (p.next c) rest).map fun _ => 5
    else if (escaped? c).isSome then .ok 1
    else .error ⟨.malformed .invalidEscape, p.nextByte c⟩

/-- The cursor after a string whose content does not matter, given the text after its
opening quote. -/
def skipStringFrom (p : Position) (skip : Nat) : Text → Except ReadError Cursor
  | [] => .error ⟨.malformed .endInString, p⟩
  | c :: rest =>
    match skip with
    | skip + 1 => skipStringFrom (p.next c) skip rest
    | 0 =>
      if c = '"' then .ok ⟨rest, p.next c⟩
      else if c = '\\' then
        match skipEscape (p.next c) rest with
        | .ok taken => skipStringFrom (p.next c) taken rest
        | .error e => .error e
      else if c.toNat < 32 then .error ⟨.malformed .controlCharacter, p⟩
      else skipStringFrom (p.next c) 0 rest

namespace Reader

/-- The content of a string whose opening quote comes next. -/
def string : Reader Text := do
  skip
  let c ← get
  let (content, after) ← liftM (readStringFrom c.position 0 [] c.rest)
  set after
  return content

/-- A string whose opening quote comes next, passed. -/
def skipString : Reader Unit := do
  skip
  let c ← get
  set (← liftM (skipStringFrom c.position 0 c.rest))

end Reader

/-! ## Writing -/

/-- A character between quotes. -/
def quoteChar (c : Char) : Text :=
  if c = '"' then ['\\', '"']
  else if c = '\\' then ['\\', '\\']
  else if c = '\x08' then ['\\', 'b']
  else if c = '\x0c' then ['\\', 'f']
  else if c = '\n' then ['\\', 'n']
  else if c = '\r' then ['\\', 'r']
  else if c = '\t' then ['\\', 't']
  else if c.toNat < 16 then ("\\u000" : Text) ++ Text.hexOfNat c.toNat
  else if c.toNat < 32 then ("\\u00" : Text) ++ Text.hexOfNat c.toNat
  else [c]

/-- A text as a string of JSON. -/
def quoted (t : Text) : Text := ['"'] ++ t.flatMap quoteChar ++ ['"']

end StyleTypings.Json
