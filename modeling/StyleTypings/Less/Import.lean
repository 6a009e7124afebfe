/-
Imports — a style sheet with the files it imports.

An `@import` names a file next to the one it stands in.  The directive is replaced
by the nodes of that file, its own imports included, so that everything after this
sees one tree.  A file that has been loaded before is not loaded again, whatever
path leads to it, unless the directive asks for it with `(multiple)`.

A chain of imports is followed to a given depth.  Without `(multiple)` every step
down loads a file for the first time, so the number of files bounds the chain; with
it a file may import itself for ever.
-/
import StyleTypings.Less.Comment
import StyleTypings.Less.Node

namespace StyleTypings.Less

/-! ## Directives -/

/-- An `@import`: the options in parentheses and what is to be imported. -/
structure Directive where
  options : List Text
  specifier : Text
deriving DecidableEq, Repr

namespace Directive

/-- What stands after `@import`, for a statement that is a directive. -/
def keywordArguments? (statement : Text) : Option Text :=
  match List.isPrefixOf? ("@import" : Text) statement with
  | some (c :: rest) =>
    if isBlank c || c == '(' || Text.isQuote c then some (c :: rest) else none
  | _ => none

/-- The options at the beginning of the arguments, and the rest. -/
def readOptions : Text → Option (List Text × Text)
  | '(' :: rest =>
    (Text.breakAt? ')' rest).map fun (inside, after) =>
      (((inside.splitOn ',').map fun o => Text.lowerAscii (Text.trim o)).filter (! ·.isEmpty),
        Text.trimLeft after)
  | t => some ([], t)

/-- The specifier at the beginning of the arguments: a string, or `url(...)`. -/
def readSpecifier : Text → Option Text
  | [] => none
  | c :: rest =>
    if Text.isQuote c then (Text.breakAt? c rest).map (·.1)
    else if Text.sameAscii ((c :: rest).take 4) "url(" then
      (Text.breakAt? ')' (rest.drop 3)).map fun (inside, _) => Text.unquote (Text.trim inside)
    else none

def ofArguments? (arguments : Text) : Option Directive := do
  let (options, rest) ← readOptions (Text.trimLeft arguments)
  let specifier ← readSpecifier rest
  some ⟨options, specifier⟩

def has (d : Directive) (option : String) : Bool := d.options.contains option.toList

/-- Whether the directive is left to the browser. -/
def staysCss (d : Directive) : Bool :=
  if d.has "css" || d.has "inline" then true
  else if d.has "less" then false
  else
    Text.endsIn d.specifier ".css" || List.isPrefixOf ("http://" : Text) d.specifier ||
      List.isPrefixOf ("https://" : Text) d.specifier || List.isPrefixOf ("//" : Text) d.specifier

/-- The path that a specifier in a file stands for.  Without the extension of a
style sheet it gets one. -/
def resolve (importer : Path) (specifier : Text) : Path :=
  let joined := (importer.parent?.getD Path.empty).join (Path.ofText specifier)
  match joined.extension? with
  | some ['l', 'e', 's', 's'] => joined
  | some ['c', 's', 's'] => joined
  | _ => joined.append ".less"

end Directive

/-! ## Loading -/

/-- Loading keeps the locations of the files that have been loaded. -/
abbrev Loader := StateT (List Location) (Except Halt)

/-- What a directive in a file asks to load, given what has been loaded: a path and
the location it leads to, or nothing. -/
def Directive.wanted (disk : Disk) (importer : Path) (loaded : List Location) (d : Directive) :
    Except CompileError (Option (Path × Location)) :=
  if d.staysCss then .ok none
  else
    let resolved := Directive.resolve importer d.specifier
    match disk.isFile resolved, disk.locate resolved with
    | true, .ok file =>
      if loaded.contains file && ! d.has "multiple" then .ok none else .ok (some (resolved, file))
    | _, _ =>
      if d.has "optional" then .ok none
      else .error (.missingImport importer d.specifier resolved)

/-- The nodes that stand for a directive, where `load` loads a file. -/
def importNodes (disk : Disk) (load : Path → Loader (List (Node Nat))) (importer : Path)
    (d : Directive) : Loader (List (Node Nat)) := do
  let loaded ← get
  match d.wanted disk importer loaded with
  | .error e => throw (.error e)
  | .ok none => return []
  | .ok (some (path, file)) =>
    let nodes ← load path
    return [.imported file (d.has "reference") nodes]

/-- What a statement imports, if it is a directive. -/
def Directive.ofStatement? (path : Path) (line : Nat) (text : Text) :
    Except CompileError (Option Directive) :=
  match Directive.keywordArguments? text with
  | none => .ok none
  | some arguments =>
    match Directive.ofArguments? arguments with
    | some d => .ok (some d)
    | none => .error (.malformed path ⟨line, .malformedImport⟩)

mutual

/-- The nodes that stand for a node of the file at a path. -/
def importsOfNode (disk : Disk) (load : Path → Loader (List (Node Nat))) (path : Path) :
    Node Nat → Loader (List (Node Nat))
  | .statement line text =>
    match Directive.ofStatement? path line text with
    | .error e => throw (.error e)
    | .ok none => return [.statement line text]
    | .ok (some d) => importNodes disk load path d
  | .block line prelude body => do
    let body ← importsOfNodes disk load path body
    return [.block line prelude body]
  | .imported file reference nodes => return [.imported file reference nodes]

def importsOfNodes (disk : Disk) (load : Path → Loader (List (Node Nat))) (path : Path) :
    List (Node Nat) → Loader (List (Node Nat))
  | [] => return []
  | n :: rest => do
    let here ← importsOfNode disk load path n
    let others ← importsOfNodes disk load path rest
    return here ++ others

end

/-- The nodes of a text, without comments. -/
def parse (t : Text) : Except Flaw (List (Node Nat)) := do readNodes (← Comment.strip t)

/-- The locations of what has been loaded, with that of a path. -/
def recordPath (disk : Disk) (path : Path) (loaded : List Location) : List Location :=
  match disk.locate path with
  | .ok file => file :: loaded
  | .error _ => loaded

/-- The nodes of a text taken for the content of the file at a path. -/
def loadText (disk : Disk) (load : Path → Loader (List (Node Nat))) (t : Text) (path : Path) :
    Loader (List (Node Nat)) := do
  modify (recordPath disk path)
  match parse t with
  | .error flaw => throw (.error (.malformed path flaw))
  | .ok nodes => importsOfNodes disk load path nodes

/-- The nodes of the file at a path, with imports followed to a depth. -/
def load (disk : Disk) : Nat → Path → Loader (List (Node Nat))
  | 0, _ => throw .unfinished
  | depth + 1, path =>
    match disk.read path with
    | .error e => throw (.error (.io path e))
    | .ok t => loadText disk (load disk depth) t path

end StyleTypings.Less
