/-
Naming — how statements and preludes spell the names they declare and use.

A variable is written `@name`, a mixin `.name` or `#name`.  `@name: value` declares
a variable, and as a named argument it gives a value to a parameter; `@name:`
before a brace declares a detached rule set, and `@name()` calls one.
-/
import StyleTypings.Text.Letter
import StyleTypings.Text.Basic

namespace StyleTypings.Less

/-- The name at the beginning of a text, if there is one, and the rest. -/
def takeName? (t : Text) : Option (Text × Text) :=
  match t.takeWhile isNameChar with
  | [] => none
  | name => some (name, t.dropWhile isNameChar)

/-- The variable at the beginning of a text, without its sign, and the rest. -/
def takeVariable? : Text → Option (Text × Text)
  | '@' :: rest => takeName? rest
  | _ => none

/-- The mixin name at the beginning of a text, with its sign, and the rest. -/
def takeMixinName? : Text → Option (Text × Text)
  | c :: rest =>
    if c = '.' || c = '#' then (takeName? rest).map fun (name, after) => (c :: name, after)
    else none
  | [] => none

/-- The variable that makes up a whole text, without its sign. -/
def variableName? : Text → Option Text
  | '@' :: name => if ! name.isEmpty && name.all isIdentChar then some name else none
  | _ => none

/-- What `@name: value` gives which value. -/
def assignment? (t : Text) : Option (Text × Text) :=
  match takeVariable? t with
  | some (name, rest) =>
    match Text.trimLeft rest with
    | ':' :: value => some (name, Text.trim value)
    | _ => none
  | none => none

/-- The detached rule set that a prelude declares. -/
def detachedName? (prelude : Text) : Option Text :=
  match takeVariable? prelude with
  | some (name, rest) => if Text.trimLeft rest = [':'] then some name else none
  | none => none

def detachedCall? (statement : Text) : Option Text :=
  match takeVariable? statement with
  | some (name, rest) =>
    match Text.trimLeft rest with
    | '(' :: inside => if Text.trimLeft inside = [')'] then some name else none
    | _ => none
  | none => none

end StyleTypings.Less
