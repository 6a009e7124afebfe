/-
Signatures — how a mixin is declared, and which calls it takes.

The prelude of a block that can be called is a name, perhaps a list of parameters
in parentheses, and perhaps a guard after `when`.  A parameter is a variable, with a
default or without, or a pattern that the argument in its place has to equal.

`accepts` decides whether a list of arguments fits the parameters and `bind` gives
the variables their values.  Both walk the parameters with the positional arguments
that are left: a pattern takes the next one, and so does a variable that is not
passed by name.
-/
import StyleTypings.Less.Naming
import StyleTypings.Less.Splitting

namespace StyleTypings.Less

inductive Parameter where
  | variable (name : Text) (default : Option Text)
  | pattern (text : Text)
deriving DecidableEq, Repr

structure Signature where
  name : Text
  parameters : List Parameter
  /-- Whether there may be more arguments than parameters. -/
  variadic : Bool
  /-- Whether there is a list of parameters at all. -/
  parametric : Bool
  guard : Option Text
deriving DecidableEq, Repr

/-- The arguments of a call, in order; of two with one name the later counts. -/
structure Arguments where
  positional : List Text
  named : List (Text × Text)
deriving DecidableEq, Repr

/-- The value passed under a name. -/
def Arguments.named? (a : Arguments) (name : Text) : Option Text :=
  (a.named.reverse).lookup name

namespace Signature

/-- Whether an item of a parameter list stands for any further arguments. -/
def isRest (item : Text) : Bool := Text.endsIn item "..."

def parameterOf (item : Text) : Parameter :=
  match assignment? item with
  | some (name, default) => .variable name (some default)
  | none =>
    match variableName? item with
    | some name => .variable name none
    | none => .pattern item

/-- The guard in what follows the parameters; nothing at all when something else
follows. -/
def readGuard (rest : Text) : Option (Option Text) :=
  match List.isPrefixOf? ("when" : Text) rest with
  | some (c :: guard) =>
    if isBlank c || c == '(' then some (some (Text.trim (c :: guard))) else none
  | _ => if rest.isEmpty then some none else none

/-- The signature with a name and without parameters. -/
def readPlain (name rest : Text) : Option Signature :=
  (readGuard rest).map fun guard => ⟨name, [], false, false, guard⟩

/-- The signature with a name, given what follows the parenthesis that opens the
parameters. -/
def readParametric (name rest : Text) : Option Signature := do
  let (inside, after) ← closeParens 0 rest
  let items := splitArguments inside
  let guard ← readGuard (Text.trimLeft after)
  some ⟨name, (items.filter (! isRest ·)).map parameterOf, items.any isRest, true, guard⟩

/-- The signature that a prelude declares, if it declares one. -/
def read? (prelude : Text) : Option Signature :=
  match takeMixinName? prelude with
  | none => none
  | some (name, rest) =>
    match Text.trimLeft rest with
    | '(' :: inside => readParametric name inside
    | rest => readPlain name rest

/-- The signatures of a prelude that is a list of selectors, each of which may be
callable by itself. -/
def ofList (prelude : Text) : List Signature :=
  (splitTop ',' prelude).filterMap fun part => read? (Text.trim part)

/-- The names under which a block can be called. -/
def names (prelude : Text) : List Text :=
  match read? prelude with
  | some s => [s.name]
  | none => (ofList prelude).map (·.name)

def forCall? (prelude name : Text) : Option Signature :=
  match read? prelude with
  | some s => some s
  | none => (ofList prelude).find? (·.name == name)

/-- Whether a prelude declares a mixin with a list of parameters, which is no rule
set of its own. -/
def isParametric (prelude : Text) : Bool := ((read? prelude).map (·.parametric)).getD false

/-! ## Matching and binding -/

/-- The positional arguments left over once every parameter has what it needs;
nothing when one of them does not get it. -/
def leftover? (a : Arguments) : List Parameter → List Text → Option (List Text)
  | [], rest => some rest
  | .pattern p :: ps, rest =>
    match rest with
    | v :: rest => if Text.unquote v = Text.unquote p then leftover? a ps rest else none
    | [] => none
  | .variable name default :: ps, rest =>
    if (a.named? name).isSome then leftover? a ps rest
    else
      match rest with
      | _ :: rest => leftover? a ps rest
      | [] => if default.isSome then leftover? a ps [] else none

def accepts (s : Signature) (a : Arguments) : Bool :=
  match leftover? a s.parameters a.positional with
  | some rest => s.variadic || rest.isEmpty
  | none => false

/-- The values of the variables among the parameters, given the positional arguments
that are left. -/
def bindFrom (a : Arguments) : List Parameter → List Text → List (Text × Text)
  | [], _ => []
  | .pattern _ :: ps, rest => bindFrom a ps rest.tail
  | .variable name default :: ps, rest =>
    match a.named? name, rest, default with
    | some v, rest, _ => (name, v) :: bindFrom a ps rest
    | none, v :: rest, _ => (name, v) :: bindFrom a ps rest
    | none, [], some v => (name, v) :: bindFrom a ps []
    | none, [], none => bindFrom a ps []

/-- The values that the arguments give to the variables among the parameters. -/
def bind (s : Signature) (a : Arguments) : List (Text × Text) :=
  bindFrom a s.parameters a.positional

end Signature

end StyleTypings.Less
