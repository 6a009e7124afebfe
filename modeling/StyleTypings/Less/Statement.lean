/-
Statements — what a statement asks for.

A statement that begins with a mixin name may be a call: a path of names, perhaps
with `>` between them, perhaps arguments in parentheses, and perhaps `!important`.
One that begins with `@` calls a detached rule set or does nothing here.  Everything
else is a declaration of a property, whatever it says.
-/
import StyleTypings.Less.Naming

namespace StyleTypings.Less

/-- A call of a mixin: the whole statement, the names that lead to the mixin, and
what stands between the parentheses. -/
structure Call where
  text : Text
  path : List Text
  arguments : Option Text
deriving DecidableEq, Repr

namespace Call

/-- The names at the beginning of a text, with `>` or blanks between them, and the
rest.  Every name takes a character, so a bound of their number is never reached. -/
def readPath : Nat → Text → List Text × Text
  | 0, t => ([], t)
  | n + 1, t =>
    match takeMixinName? t with
    | none => ([], t)
    | some (name, rest) =>
      let rest := match Text.trimLeft rest with
        | '>' :: after => Text.trimLeft after
        | rest => rest
      let (names, rest) := readPath n rest
      (name :: names, rest)

/-- Whether nothing follows a call but perhaps `!important`. -/
def isEnd (t : Text) : Bool :=
  match Text.trimLeft t with
  | [] => true
  | '!' :: rest => Text.trimLeft rest == ("important" : Text)
  | _ => false

/-- What stands between the first parenthesis and the last, if the text begins with
a parenthesis and ends after one. -/
def readArguments (t : Text) : Option Text :=
  match t with
  | '(' :: rest =>
    match Text.breakAtLast? ')' rest with
    | some (inside, after) => if isEnd after then some inside else none
    | none => none
  | _ => none

/-- The call that a statement is, if it is one. -/
def read? (t : Text) : Option Call :=
  let (path, rest) := readPath t.length t
  if path.isEmpty then none
  else
    match readArguments rest with
    | some arguments => some ⟨t, path, some arguments⟩
    | none => if isEnd rest then some ⟨t, path, none⟩ else none

end Call

inductive Statement where
  | declaration
  | call (c : Call)
  | detachedCall (name : Text)
  /-- A declaration of a variable, or a directive without effect on selectors. -/
  | inert

/-- What a statement asks for. -/
def Statement.ofText (t : Text) : Statement :=
  match t with
  | '@' :: '{' :: _ => .declaration
  | '@' :: _ =>
    match detachedCall? t with
    | some name => .detachedCall name
    | none => .inert
  | _ =>
    if List.isPrefixOf ("&:extend" : Text) t then .inert
    else
      match Call.read? t with
      | some c => .call c
      | none => .declaration

end StyleTypings.Less
