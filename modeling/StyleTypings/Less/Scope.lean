/-
Scopes — what names stand for.

A block declares variables, mixins and detached rule sets for the whole of itself,
whatever the order of its nodes; the files it imports count as parts of it.  A
frame is what one block declares, and a scope is a list of frames, innermost first.
A name stands for what the innermost frame that declares it says: the last
declaration of a variable or detached rule set, and all definitions of a mixin.

A variable that stands for another is followed, and one that stands for an
expression is computed.  Both are done to a depth of 32; a value that deep is taken
as it is written.
-/
import StyleTypings.Less.Guard
import StyleTypings.Less.Node
import StyleTypings.Less.Signature

namespace StyleTypings.Less

/-- A block that can be called. -/
structure Definition (ι : Type) where
  tag : ι
  prelude : Text
  body : List (Node ι)

/-- A name with what it stands for in one frame. -/
inductive Binding (ι : Type) where
  | variable (name : Text) (value : Text)
  | mixin (name : Text) (definition : Definition ι)
  | detached (name : Text) (body : List (Node ι))

namespace Binding

variable {ι : Type}

def rawValue? (name : Text) : Binding ι → Option Text
  | .variable n value => if n = name then some value else none
  | _ => none

def mixin? (name : Text) : Binding ι → Option (Definition ι)
  | .mixin n d => if n = name then some d else none
  | _ => none

/-- What a binding of the detached rule set says. -/
def detached? (name : Text) : Binding ι → Option (List (Node ι))
  | .detached n body => if n = name then some body else none
  | _ => none

end Binding

/-- What one block declares, in order. -/
abbrev Frame (ι : Type) := List (Binding ι)

mutual

/-- What a node declares for the block it stands in. -/
def Node.bindings {ι : Type} : Node ι → Frame ι
  | .statement _ text =>
    match assignment? text with
    | some (name, value) => [.variable name value]
    | none => []
  | .block tag prelude body =>
    match detachedName? prelude with
    | some name => [.detached name body]
    | none => (Signature.names prelude).map fun name => .mixin name ⟨tag, prelude, body⟩
  | .imported _ _ nodes => bindingsOf nodes

/-- What the nodes of a block declare. -/
def bindingsOf {ι : Type} : List (Node ι) → Frame ι
  | [] => []
  | n :: rest => n.bindings ++ bindingsOf rest

end

namespace Frame

variable {ι : Type}

/-- The last value that a frame gives a variable. -/
def rawValue? (f : Frame ι) (name : Text) : Option Text :=
  (f.filterMap (Binding.rawValue? name)).getLast?

def mixins (f : Frame ι) (name : Text) : List (Definition ι) :=
  f.filterMap (Binding.mixin? name)

def detached? (f : Frame ι) (name : Text) : Option (List (Node ι)) :=
  (f.filterMap (Binding.detached? name)).getLast?

end Frame

/-- The frames that names are looked up in, innermost first. -/
abbrev Scope (ι : Type) := List (Frame ι)

namespace Scope

variable {ι : Type}

/-- The scope inside a block. -/
def enter (s : Scope ι) (body : List (Node ι)) : Scope ι := bindingsOf body :: s

/-- The scope with values given to parameters in its innermost frame. -/
def withValues (s : Scope ι) (values : List (Text × Text)) : Scope ι :=
  match s with
  | [] => [values.map fun (name, v) => .variable name v]
  | f :: outer => (f ++ values.map fun (name, v) => .variable name v) :: outer

/-! ## Looking up -/

/-- The value of a variable as it is written. -/
def rawValue? (s : Scope ι) (name : Text) : Option Text :=
  s.findSome? fun f => Frame.rawValue? f name

/-- The definitions of a mixin in the innermost frame that has any. -/
def mixins (s : Scope ι) (name : Text) : List (Definition ι) :=
  match s with
  | [] => []
  | f :: outer =>
    match Frame.mixins f name with
    | [] => mixins outer name
    | ds => ds

/-- The body of a detached rule set. -/
def detached? (s : Scope ι) (name : Text) : Option (List (Node ι)) :=
  s.findSome? fun f => Frame.detached? f name

/-- The definitions that a path of names leads to.  All names but the last stand for
blocks in which the next is looked up. -/
def find (s : Scope ι) : List Text → List (Definition ι)
  | [] => []
  | [name] => mixins s name
  | name :: names => (mixins s name).flatMap fun d => find (enter [] d.body) names

/-! ## Values of variables -/

/-- The value of a variable as it is written, or the error that it has none. -/
def written (s : Scope ι) (name : Text) : Except CompileError Text :=
  match rawValue? s name with
  | some v => .ok v
  | none => .error (.undefinedVariable name)

/-- A value without the tilde and the quotes around it. -/
def bare (value : Text) : Text := Text.unquote (Text.trim (value.dropWhile (· == '~')))

/-- A text with every `@{name}` in it replaced; `skip` counts the characters of one
that are still to be passed. -/
def replaceNames (resolve : Text → Except CompileError Text) : Nat → Text → Except CompileError Text
  | _, [] => .ok []
  | skip + 1, _ :: rest => replaceNames resolve skip rest
  | 0, c :: rest =>
    match c, rest with
    | '@', '{' :: after =>
      match Text.breakAt? '}' after with
      | some (name, _) => do
        let value ← resolve name
        return value ++ (← replaceNames resolve (name.length + 2) rest)
      | none => return c :: (← replaceNames resolve 0 rest)
    | _, _ => return c :: (← replaceNames resolve 0 rest)

/-- What a written value means: another variable is followed, an expression is
computed, and in anything else the interpolations are replaced. -/
def meaning (resolve : Text → Except CompileError Text) (lookup : Text → Except CompileError Value)
    (value : Text) : Except CompileError Text :=
  match variableName? value with
  | some name => resolve name
  | none =>
    match Expression.read? value with
    | some e =>
      if e.isLiteral then replaceNames resolve 0 value
      else (e.evaluate lookup none).map Value.text
    | none => replaceNames resolve 0 value

/-- How many variables are followed before a value is taken as it is written. -/
def maxDepth : Nat := 32

mutual

/-- The text of a variable, with at most so many others followed. -/
def textWithin (s : Scope ι) : Nat → Text → Except CompileError Text
  | 0, name => (written s name).map bare
  | n + 1, name => do
    meaning (textWithin s n) (valueWithin s n) (bare (← written s name))

/-- The value of a variable, with at most so many others followed. -/
def valueWithin (s : Scope ι) : Nat → Text → Except CompileError Value
  | 0, name => (written s name).map fun v => .keyword (bare v)
  | n + 1, name => do
    let v ← written s name
    match Expression.read? v with
    | some e => e.evaluate (valueWithin s n) none
    | none => (meaning (textWithin s n) (valueWithin s n) (bare v)).map .keyword

end

/-- The text of a variable. -/
def text (s : Scope ι) (name : Text) : Except CompileError Text := textWithin s maxDepth name

/-- The value of a variable. -/
def value (s : Scope ι) (name : Text) : Except CompileError Value := valueWithin s maxDepth name

/-- A text with its interpolations replaced. -/
def interpolate (s : Scope ι) (t : Text) : Except CompileError Text := replaceNames (text s) 0 t

/-! ## Arguments -/

/-- A text with every `@name` in it replaced by the variable's text, where it has
one. -/
def replaceReferences (resolve : Text → Except CompileError Text) : Nat → Text → Text
  | _, [] => []
  | skip + 1, _ :: rest => replaceReferences resolve skip rest
  | 0, c :: rest =>
    match takeVariable? (c :: rest) with
    | none => c :: replaceReferences resolve 0 rest
    | some (name, _) =>
      match resolve name with
      | .ok value => value ++ replaceReferences resolve name.length rest
      | .error _ => c :: name ++ replaceReferences resolve name.length rest

def argument (s : Scope ι) (t : Text) : Except CompileError Text :=
  match Expression.read? t with
  | some e => (e.evaluate (value s) none).map Value.toCss
  | none => .ok (replaceReferences (text s) 0 t)

/-- The arguments with one more item of the argument list. -/
def addArgument (s : Scope ι) (a : Arguments) (item : Text) : Except CompileError Arguments :=
  match assignment? item with
  | some (name, t) => do return { a with named := a.named ++ [(name, ← argument s t)] }
  | none => do return { a with positional := a.positional ++ [← argument s item] }

/-- The arguments of a call, evaluated where it stands. -/
def arguments (s : Scope ι) (written : Option Text) : Except CompileError Arguments :=
  match written with
  | none => .ok ⟨[], []⟩
  | some t => (splitArguments t).foldlM (addArgument s) ⟨[], []⟩

end Scope

end StyleTypings.Less
