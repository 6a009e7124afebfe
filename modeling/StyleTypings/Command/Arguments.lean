/-
Command lines — what the words after the program's name ask for.

The first word that is no option names the command.  An option that takes a value
takes it after `=`, from the rest of its word if it has one letter, or from the next
word; only the option for line endings takes a word that begins with a hyphen.  After
`--` all words are operands.

The value of an option is looked at once the next option or operand is understood, or
at the end.  So a word that nobody understands is refused before the value in front of
it.  What is missing shows at the very end.
-/
import StyleTypings.Classes.NameFormat
import StyleTypings.Typings.Options

namespace StyleTypings

/-- Why a command line is refused, or ends in information. -/
inductive UsageError where
  | unknownArgument
  | invalidSubcommand
  | missingRequiredArgument
  /-- An option lacks its value, or the value is none of its choices. -/
  | invalidValue
  /-- A value that cannot be read, with the line that says so. -/
  | valueValidation (message : Text)
  /-- An option is given twice. -/
  | argumentConflict
  /-- An option that takes no value has one. -/
  | tooManyValues
  | displayHelp
  | displayVersion
deriving DecidableEq, Repr

/-- The exit status of a command line that is not run. -/
def UsageError.status : UsageError → Nat
  | .displayHelp => 0
  | .displayVersion => 0
  | _ => 2

/-- What a run is asked to do. -/
structure GenerateArguments where
  pattern : Text
  nameFormat : Option NameFormat
  exportType : Option ExportType
  lineEnding : Option LineEnding
  /-- Whether to check declarations and write none. -/
  listDifferent : Bool
  watch : Bool
  /-- Whether to begin with watching. -/
  ignoreInitial : Bool
  aliases : List (Text × Text)
  aliasPrefixes : List (Text × Text)
  verbose : Bool
deriving DecidableEq, Repr

inductive Command where
  | generate (arguments : GenerateArguments)
  | init
deriving DecidableEq, Repr

/-- Whether a command is to say more. -/
def Command.verbose : Command → Bool
  | .generate a => a.verbose
  | .init => false

namespace Arguments

/-! ## Words -/

/-- A word of a command line, by how it begins. -/
inductive Word where
  /-- Two hyphens. -/
  | escape
  /-- Two hyphens and a name, perhaps with `=` and a value. -/
  | long (name : Text) (value : Option Text)
  /-- A hyphen and letters. -/
  | short (letters : Text)
  | plain

/-- The kind of a word. -/
def Word.ofText : Text → Word
  | ['-', '-'] => .escape
  | '-' :: '-' :: rest =>
    match Text.breakAt? '=' rest with
    | some (name, value) => .long name (some value)
    | none => .long rest none
  | '-' :: c :: rest => .short (c :: rest)
  | _ => .plain

/-! ## Options of generation -/

/-- What can be given a value. -/
inductive Slot where
  | pattern
  | nameFormat
  | exportType
  | lineEnding
  | alias
  | aliasPrefix
deriving DecidableEq, Repr

/-- What can be switched on. -/
inductive Switch where
  | listDifferent
  | watch
  | ignoreInitial
  | verbose
deriving DecidableEq, Repr

inductive Flag where
  | help
  | switch (s : Switch)
  | valued (s : Slot)
deriving DecidableEq, Repr

/-- The options by their names. -/
def longNames : List (Text × Flag) :=
  [("name-format", .valued .nameFormat), ("export-type", .valued .exportType),
    ("line-ending", .valued .lineEnding), ("list-different", .switch .listDifferent),
    ("watch", .switch .watch), ("ignore-initial", .switch .ignoreInitial),
    ("alias", .valued .alias), ("alias-prefix", .valued .aliasPrefix),
    ("verbose", .switch .verbose), ("help", .help)]

/-- The options by their letters. -/
def shortNames : List (Char × Flag) :=
  [('n', .valued .nameFormat), ('e', .valued .exportType), ('l', .switch .listDifferent),
    ('w', .switch .watch), ('v', .switch .verbose), ('h', .help)]

/-- Whether a slot takes words that begin with a hyphen. -/
def Slot.takesHyphens : Slot → Bool
  | .lineEnding => true
  | _ => false

/-! ## Values -/

/-- What has been given so far. -/
structure Draft where
  pattern : Option Text
  nameFormat : Option NameFormat
  exportType : Option ExportType
  lineEnding : Option LineEnding
  aliases : List (Text × Text)
  aliasPrefixes : List (Text × Text)
  /-- What has been switched on. -/
  switches : List Switch

/-- Nothing given yet. -/
def Draft.empty : Draft := ⟨none, none, none, none, [], [], []⟩

def firstLine (t : Text) : Text :=
  let line := t.takeWhile (· != '\n')
  if line.length < t.length && line.getLast? == some '\r' then line.dropLast else line

/-- The refusal of a value that cannot be read. -/
def unreadable (option value reason : Text) : UsageError :=
  .valueValidation (firstLine (("error: invalid value '" : Text) ++ value ++ ("' for '" : Text) ++
    option ++ ("': " : Text) ++ reason))

/-- The pair that a text with an equals sign is; what stands before the sign is not
empty. -/
def pairOf (option value : Text) : Except UsageError (Text × Text) :=
  let refused := unreadable option value (("expected FROM=TO, got '" : Text) ++ value ++ ['\''])
  match Text.breakAt? '=' value with
  | some ([], _) => .error refused
  | some pair => .ok pair
  | none => .error refused

def choiceOf {α : Type} (choices : List (Text × α)) (word : Text) : Except UsageError α :=
  match choices.lookup word with
  | some a => .ok a
  | none => .error .invalidValue

/-- A value that can be given once. -/
def once {α : Type} (old : Option α) (new : Except UsageError α) :
    Except UsageError (Option α) :=
  if old.isSome then .error .argumentConflict else new.map some

def lineEndingOf (value : Text) : Except UsageError LineEnding :=
  (LineEnding.parse value).mapError (unreadable "--line-ending <LINE_ENDING>" value)

/-- The draft with a value in a slot. -/
def Draft.store (d : Draft) (value : Text) : Slot → Except UsageError Draft
  | .pattern => .ok { d with pattern := some value }
  | .nameFormat => do
    return { d with nameFormat := ← once d.nameFormat (choiceOf NameFormat.choices value) }
  | .exportType => do
    return { d with exportType := ← once d.exportType (choiceOf ExportType.choices value) }
  | .lineEnding => do
    return { d with lineEnding := ← once d.lineEnding (lineEndingOf value) }
  | .alias => do
    return { d with aliases := d.aliases ++ [← pairOf "--alias <FROM=TO>" value] }
  | .aliasPrefix => do
    let pair ← pairOf "--alias-prefix <FROM=TO>" value
    return { d with aliasPrefixes := d.aliasPrefixes ++ [pair] }

/-- The draft with something switched on. -/
def Draft.turnOn (d : Draft) (s : Switch) : Except UsageError Draft :=
  if d.switches.contains s then .error .argumentConflict
  else .ok { d with switches := s :: d.switches }

/-! ## Reading -/

/-- How far reading has come. -/
structure Progress where
  draft : Draft
  /-- The slot given last, with its value if that has been read. -/
  pending : Option (Slot × Option Text)

namespace Progress

/-- The slot that waits for its value. -/
def awaiting (p : Progress) : Option Slot :=
  match p.pending with
  | some (slot, none) => some slot
  | _ => none

/-- The draft with the value that is pending. -/
def settle (p : Progress) : Except UsageError Draft :=
  match p.pending with
  | none => .ok p.draft
  | some (_, none) => .error .invalidValue
  | some (slot, some value) => p.draft.store value slot

/-- The next slot given, whose value is not looked at yet. -/
def await (p : Progress) (slot : Slot) (value : Option Text) : Except UsageError Progress := do
  return ⟨← p.settle, some (slot, value)⟩

/-- The next slot given together with its value. -/
def give (p : Progress) (slot : Slot) (value : Text) : Except UsageError Progress := do
  return ⟨← (← p.settle).store value slot, none⟩

/-- Something switched on. -/
def turnOn (p : Progress) (s : Switch) : Except UsageError Progress := do
  return ⟨← (← p.settle).turnOn s, none⟩

/-- Help asked for. -/
def help (p : Progress) : Except UsageError Progress := do
  let _ ← p.settle
  .error .displayHelp

def long (p : Progress) (name : Text) (value : Option Text) : Except UsageError Progress :=
  match longNames.lookup name, value with
  | none, _ => .error .unknownArgument
  | some (.valued slot), some v => p.give slot v
  | some (.valued slot), none => p.await slot none
  | some _, some _ => .error .tooManyValues
  | some .help, none => p.help
  | some (.switch s), none => p.turnOn s

/-- Options with letters; what follows the letter of an option that takes a value is
the value. -/
def short (p : Progress) : Text → Except UsageError Progress
  | [] => .ok p
  | c :: rest =>
    match shortNames.lookup c with
    | none => .error .unknownArgument
    | some .help => p.help
    | some (.switch s) => do (← p.turnOn s).short rest
    | some (.valued slot) =>
      match rest with
      | [] => p.await slot none
      | '=' :: value => p.give slot value
      | value => p.give slot value

/-- Whether an operand has been read. -/
def hasPattern (p : Progress) : Bool :=
  p.draft.pattern.isSome || (p.pending.map (·.1)) == some .pattern

def operand (p : Progress) (t : Text) : Except UsageError Progress :=
  if p.hasPattern then .error .unknownArgument else p.await .pattern (some t)

/-- The next word, before any `--`. -/
def word (p : Progress) (t : Text) : Except UsageError Progress :=
  let value (slot : Slot) : Except UsageError Progress :=
    .ok { p with pending := some (slot, some t) }
  match p.awaiting, Word.ofText t with
  | some slot, .plain => value slot
  | some slot, .escape => value slot
  | none, .plain => p.operand t
  | none, .escape => .ok p
  | awaiting, .long name v =>
    if awaiting == some .lineEnding then value .lineEnding else p.long name v
  | awaiting, .short letters =>
    if awaiting == some .lineEnding then value .lineEnding else p.short letters

end Progress

/-- Whether a word ends the options: two hyphens that are no value. -/
def endsOptions (p : Progress) (t : Text) : Bool :=
  match Word.ofText t with
  | .escape => ! ((p.awaiting.map Slot.takesHyphens).getD false)
  | _ => false

/-- The words after `--`. -/
def readOperands (p : Progress) (ts : List Text) : Except UsageError Progress :=
  ts.foldlM Progress.operand p

/-- The words of a command. -/
def readWords (p : Progress) : List Text → Except UsageError Progress
  | [] => .ok p
  | t :: rest =>
    if endsOptions p t then readOperands p rest
    else do readWords (← p.word t) rest

/-- What a draft asks for, if nothing is missing in it. -/
def Draft.finish (d : Draft) : Except UsageError GenerateArguments :=
  match d.pattern with
  | none => .error .missingRequiredArgument
  | some pattern =>
    if d.switches.contains .ignoreInitial && ! d.switches.contains .watch then
      .error .missingRequiredArgument
    else
      .ok {
        pattern
        nameFormat := d.nameFormat
        exportType := d.exportType
        lineEnding := d.lineEnding
        listDifferent := d.switches.contains .listDifferent
        watch := d.switches.contains .watch
        ignoreInitial := d.switches.contains .ignoreInitial
        aliases := d.aliases
        aliasPrefixes := d.aliasPrefixes
        verbose := d.switches.contains .verbose }

/-- What the words after `generate` ask for. -/
def readGenerate (ts : List Text) : Except UsageError GenerateArguments := do
  (← (← readWords ⟨.empty, none⟩ ts).settle).finish

/-! ## Commands -/

/-- What a word means where there are no options but those for information. -/
def information (version : Bool) (otherwise : UsageError) (t : Text) : UsageError :=
  match Word.ofText t with
  | .long name value =>
    if name = ("help" : Text) || (version && name = ("version" : Text)) then
      if value.isSome then .tooManyValues
      else if name = ("help" : Text) then .displayHelp else .displayVersion
    else .unknownArgument
  | .short letters =>
    match letters with
    | 'h' :: _ => .displayHelp
    | 'V' :: _ => if version then .displayVersion else .unknownArgument
    | _ => .unknownArgument
  | _ => otherwise

/-- The words after `init`, of which there can be none. -/
def readInit : List Text → Except UsageError Unit
  | [] => .ok ()
  | t :: rest =>
    match Word.ofText t with
    | .escape => if rest.isEmpty then .ok () else .error .unknownArgument
    | _ => .error (information false .unknownArgument t)

def commandNames : List Text := ["generate", "init", "help"]

/-- The words after `help`: at most the name of a command. -/
def readHelp : List Text → UsageError
  | [] => .displayHelp
  | [t] => if commandNames.contains t then .displayHelp else .invalidSubcommand
  | _ => .invalidSubcommand

/-- The command of a command line; none if there is not even a word. -/
def read : List Text → Except UsageError (Option Command)
  | [] => .ok none
  | t :: rest =>
    if t = ("generate" : Text) then (readGenerate rest).map fun a => some (.generate a)
    else if t = ("init" : Text) then (readInit rest).map fun _ => some .init
    else if t = ("help" : Text) then .error (readHelp rest)
    else
      match Word.ofText t, rest with
      | .escape, [] => .ok none
      | .escape, u :: _ =>
        .error (if commandNames.contains u then .unknownArgument else .invalidSubcommand)
      | _, _ => .error (information true .invalidSubcommand t)

end Arguments

end StyleTypings
