/-
Settings read from JSON.

A settings file is an object with a member for each setting, or a list with the
settings in order.  Members that are no settings are passed over, and a setting may be
missing but not given twice.  A choice among words is a string, or an object with the
word for its only key and `null` for its value.

A setting given twice and a line ending that is none are noticed at the end of the
whole object or list; every other unfit value is noticed where it stands.
-/
import StyleTypings.Settings.Basic
import StyleTypings.Json.Values

namespace StyleTypings

namespace Settings

open Json (Reader)

/-! ## Single settings -/

/-- Words as messages list them. -/
def listing (words : List Text) : Text :=
  ("one of " : Text) ++ Text.joinWith [',', ' '] (words.map fun w => ['`'] ++ w ++ ['`'])

/-- The choice that a word stands for. -/
def choiceOf {α : Type} (choices : List (Text × α)) (word : Text) : Reader α := do
  match choices.lookup word with
  | some a => return a
  | none =>
    let message := ("unknown variant `" : Text) ++ word ++ ("`, expected " : Text) ++
      listing (choices.map (·.1))
    throw ⟨.unfit message, (← get).position⟩

/-- One of several choices. -/
def choice {α : Type} (choices : List (Text × α)) : Reader α := do
  match ← Reader.peek with
  | none => Reader.failHere .endInValue
  | some c =>
    if c = '\x7b' then
      Reader.skip
      let a ← choiceOf choices (← Reader.text "variant identifier")
      Reader.colon
      Reader.nothing
      match ← Reader.peek with
      | none => Reader.failHere .endInObject
      | some d =>
        if d = '\x7d' then
          Reader.skip
          return a
        else Reader.failHere .expectedValue
    else if c = '"' then choiceOf choices (← Reader.string)
    else Reader.failAhead .expectedValue

def nameFormatValue : Reader NameFormat := choice NameFormat.choices

/-- A shape of declarations. -/
def exportTypeValue : Reader ExportType := choice ExportType.choices

/-- A line ending, or why the text given for it is none. -/
def lineEndingValue : Reader (Except Text LineEnding) := do
  return LineEnding.parse (← Reader.text "a string")

def dictionaryValue : Reader Dictionary := do
  return Dictionary.ofPairs (← Reader.object (Reader.text "a string"))

def textsValue : Reader (List Text) := Reader.list (Reader.text "a string")

/-! ## All settings -/

/-- A setting with its value. -/
inductive Item where
  | nameFormat (f : NameFormat)
  | exportType (e : ExportType)
  | lineEnding (l : LineEnding)
  | aliases (d : Dictionary)
  | aliasPrefixes (d : Dictionary)
  | ignores (ts : List Text)

/-- The settings that can be given. -/
inductive Key where
  | nameFormat
  | exportType
  | lineEnding
  | aliases
  | aliasPrefixes
  | ignores
deriving DecidableEq, Repr

namespace Key

/-- All keys, in the order in which a file without keys gives their values. -/
def all : List Key := [nameFormat, exportType, lineEnding, aliases, aliasPrefixes, ignores]

/-- The word for a key. -/
def name : Key → Text
  | nameFormat => ("nameFormat" : Text)
  | exportType => ("exportType" : Text)
  | lineEnding => ("lineEnding" : Text)
  | aliases => ("aliases" : Text)
  | aliasPrefixes => ("aliasPrefixes" : Text)
  | ignores => ("ignores" : Text)

/-- The value of a key, or why it is none although it is of the right kind. -/
def value : Key → Reader (Except Text Item)
  | nameFormat => return .ok (.nameFormat (← nameFormatValue))
  | exportType => return .ok (.exportType (← exportTypeValue))
  | lineEnding => return (← lineEndingValue).map .lineEnding
  | aliases => return .ok (.aliases (← dictionaryValue))
  | aliasPrefixes => return .ok (.aliasPrefixes (← dictionaryValue))
  | ignores => return .ok (.ignores (← textsValue))

end Key

/-- The settings with one of them changed. -/
def apply (s : Settings) : Item → Settings
  | .nameFormat f => { s with nameFormat := f }
  | .exportType e => { s with exportType := e }
  | .lineEnding l => { s with lineEnding := l }
  | .aliases d => { s with aliases := { s.aliases with exact := d } }
  | .aliasPrefixes d => { s with aliases := { s.aliases with starts := d } }
  | .ignores ts => { s with ignores := ts }

/-- The settings in the members of an object, up to the brace that ends it, or why
there are none; `seen` holds the keys given so far. -/
def readMembers : Nat → Bool → List Key → Settings → Reader (Except Text Settings)
  | 0, _, _, _ => Reader.failHere .endInObject
  | n + 1, first, seen, s => do
    if ← Reader.hasMember first then
      let word ← Reader.string
      match Key.all.find? (·.name == word) with
      | none =>
        Reader.colon
        Reader.ignored
        readMembers n false seen s
      | some key =>
        if seen.contains key then
          return .error (("duplicate field `" : Text) ++ word ++ ['`'])
        Reader.colon
        match ← key.value with
        | .error e => return .error e
        | .ok item => readMembers n false (key :: seen) (s.apply item)
    else return .ok s

/-- The settings in the elements of a list, one for each key as far as there are
elements, or why there are none. -/
def readElements : List Key → Bool → Settings → Reader (Except Text Settings)
  | [], _, s => return .ok s
  | key :: keys, first, s => do
    if ← Reader.hasElement first then
      match ← key.value with
      | .error e => return .error e
      | .ok item => readElements keys false (s.apply item)
    else return .ok s

/-- Where the search for the end of an object or list stops: after the bracket that ends
it, or before whatever else is there.  In a list the search passes a comma. -/
def searchEnd (isList : Bool) (c : Json.Cursor) : Json.Cursor :=
  let c := c.skipSpace
  match c.rest with
  | [] => c
  | d :: _ =>
    if d = (if isList then ']' else '\x7d') then c.advance 1
    else if isList && d = ',' then (c.advance 1).skipSpace
    else c

/-- The settings of an object or list up to its end, or failure there. -/
def closed (isList : Bool) (r : Except Text Settings) : Reader Settings := do
  match r with
  | .ok s =>
    if isList then Reader.endList else Reader.endObject
    return s
  | .error message => throw ⟨.unfit message, (searchEnd isList (← get)).position⟩

def readValue : Reader Settings := do
  let c ← Reader.begin
  if c = '[' then
    Reader.skip
    closed true (← readElements Key.all true default)
  else if c = '\x7b' then
    Reader.skip
    closed false (← readMembers (← Reader.bound) true [] default)
  else Reader.mismatch "struct Config" c

def read (t : Text) : Except Json.ReadError Settings :=
  let whole : Reader Settings := do
    let s ← readValue
    Reader.finish
    return s
  (whole.run (Json.Cursor.ofText t)).map (·.1)

end Settings

end StyleTypings
