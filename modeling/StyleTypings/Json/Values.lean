/-
Values of JSON — read as what is asked for, cited when they are something else, or
passed over when nobody asks.

Lists and objects are read element by element by whoever asked for them; this module
holds what happens between the elements.
-/
import StyleTypings.Json.Strings
import StyleTypings.Json.Numbers

namespace StyleTypings.Json

namespace Reader

/-! ## Words -/

/-- The letters of a word that has to be right here. -/
def letters : Text → Reader Unit
  | [] => return ()
  | c :: rest => do
    match ← ahead with
    | none => failHere .endInValue
    | some d => if c = d then (do skip; letters rest) else failAhead .expectedIdent

/-! ## Values of the wrong kind -/

/-- Failure since the value read last is not what was asked for. -/
def unfit {α : Type} (found expected : Text) : Reader α := do
  let message := ("invalid type: " : Text) ++ found ++ (", expected " : Text) ++ expected
  throw ⟨.unfit message, (← get).position⟩

/-- Failure since the value that begins with a character is not what was asked for.
Words, numbers and strings are read first and cited; lists and objects are not. -/
def mismatch {α : Type} (expected : Text) (c : Char) : Reader α := do
  if c = 'n' then
    letters "null"
    unfit "null" expected
  else if c = 't' then
    letters "true"
    unfit "boolean `true`" expected
  else if c = 'f' then
    letters "false"
    unfit "boolean `false`" expected
  else if c = '-' then
    skip
    unfit (← number true) expected
  else if c.isDigit then unfit (← number false) expected
  else if c = '"' then unfit (("string " : Text) ++ Text.quoted (← string)) expected
  else if c = '[' then unfit "sequence" expected
  else if c = '\x7b' then unfit "map" expected
  else failAhead .expectedValue

/-- The first character of a value. -/
def begin : Reader Char := do
  match ← peek with
  | some c => return c
  | none => failHere .endInValue

/-- A string. -/
def text (expected : Text) : Reader Text := do
  let c ← begin
  if c = '"' then string else mismatch expected c

/-- Nothing, written `null`. -/
def nothing : Reader Unit := do
  let c ← begin
  if c = 'n' then letters "null" else mismatch "unit" c

/-! ## Lists and objects -/

/-- Whether an element of a list follows; `first` before the first one. -/
def hasElement (first : Bool) : Reader Bool := do
  match ← peek with
  | none => failHere .endInList
  | some c =>
    if c = ']' then return false
    else if first then return true
    else if c = ',' then
      skip
      match ← peek with
      | none => failHere .endInValue
      | some d => if d = ']' then failAhead .trailingComma else return true
    else failAhead .expectedListCommaOrEnd

/-- Whether a member of an object follows; `first` before the first one. -/
def hasMember (first : Bool) : Reader Bool := do
  match ← peek with
  | none => failHere .endInObject
  | some c =>
    if c = '\x7d' then return false
    else if first then
      if c = '"' then return true else failAhead .keyNoString
    else if c = ',' then
      skip
      match ← peek with
      | none => failHere .endInValue
      | some d =>
        if d = '"' then return true
        else if d = '\x7d' then failAhead .trailingComma
        else failAhead .keyNoString
    else failAhead .expectedObjectCommaOrEnd

/-- The colon after a key. -/
def colon : Reader Unit := do
  match ← peek with
  | none => failHere .endInObject
  | some c => if c = ':' then skip else failAhead .expectedColon

def endList : Reader Unit := do
  match ← peek with
  | none => failHere .endInList
  | some c =>
    if c = ']' then skip
    else if c = ',' then
      skip
      if (← peek) == some ']' then failAhead .trailingComma else failAhead .trailingCharacters
    else failAhead .trailingCharacters

def endObject : Reader Unit := do
  match ← peek with
  | none => failHere .endInObject
  | some c =>
    if c = '\x7d' then skip
    else if c = ',' then failAhead .trailingComma
    else failAhead .trailingCharacters

/-- The end of the text. -/
def finish : Reader Unit := do
  if (← peek).isSome then failAhead .trailingCharacters

/-- The elements of a list after its bracket, up to the bracket that ends it.  Every
element takes a character, so a bound of their number is never reached. -/
def elements {α : Type} (element : Reader α) : Nat → Bool → Reader (List α)
  | 0, _ => failHere .endInList
  | n + 1, first => do
    if ← hasElement first then
      let a ← element
      return a :: (← elements element n false)
    else return []

/-- The members of an object after its brace, up to the brace that ends it. -/
def members {α : Type} (value : Reader α) : Nat → Bool → Reader (List (Text × α))
  | 0, _ => failHere .endInObject
  | n + 1, first => do
    if ← hasMember first then
      let key ← string
      colon
      let a ← value
      return (key, a) :: (← members value n false)
    else return []

/-- A number of steps that no loop over the rest of the text exceeds: every character
takes at most two of them. -/
def bound : Reader Nat := return 2 * (← get).rest.length + 2

/-- A list of values. -/
def list {α : Type} (element : Reader α) : Reader (List α) := do
  let c ← begin
  if c = '[' then
    skip
    let as ← elements element (← bound) true
    endList
    return as
  else mismatch "a sequence" c

/-- An object of values. -/
def object {α : Type} (value : Reader α) : Reader (List (Text × α)) := do
  let c ← begin
  if c = '\x7b' then
    skip
    let ms ← members value (← bound) true
    endObject
    return ms
  else mismatch "a map" c

/-! ## Values that nobody asks for -/

/-- The key of a member whose value does not matter, and its colon. -/
def skipKey : Reader Unit := do
  match ← peek with
  | none => failHere .endInObject
  | some c => if c = '"' then skipString else failAhead .keyNoString
  colon

mutual

/-- A value, passed.  The bound is never reached, since a value and its first element
take a character. -/
def skipValue : Nat → Reader Unit
  | 0 => failHere .endInValue
  | n + 1 => do
    let c ← begin
    if c = 'n' then letters "null"
    else if c = 't' then letters "true"
    else if c = 'f' then letters "false"
    else if c = '-' then
      skip
      skipNumber
    else if c.isDigit then skipNumber
    else if c = '"' then skipString
    else if c = '[' then
      skip
      match ← peek with
      | none => failHere .endInList
      | some d => if d = ']' then skip else skipElements n
    else if c = '\x7b' then
      skip
      match ← peek with
      | none => failHere .endInObject
      | some d => if d = '\x7d' then skip else skipMembers n
    else failAhead .expectedValue

def skipElements : Nat → Reader Unit
  | 0 => failHere .endInList
  | n + 1 => do
    skipValue n
    match ← peek with
    | none => failHere .endInList
    | some c =>
      if c = ']' then skip
      else if c = ',' then
        skip
        skipElements n
      else failAhead .expectedListCommaOrEnd

def skipMembers : Nat → Reader Unit
  | 0 => failHere .endInObject
  | n + 1 => do
    skipKey
    skipValue n
    match ← peek with
    | none => failHere .endInObject
    | some c =>
      if c = '\x7d' then skip
      else if c = ',' then
        skip
        skipMembers n
      else failAhead .expectedObjectCommaOrEnd

end

/-- A value, passed. -/
def ignored : Reader Unit := do skipValue (← bound)

end Reader

end StyleTypings.Json
