/-
Guards — the conditions after `when`.

A guard is a list of alternatives, each of them a list of conditions that all have
to hold.  A condition is in parentheses, perhaps with `not` before them, and holds
an expression that is true or two expressions that are compared.
-/
import StyleTypings.Less.Expression

namespace StyleTypings.Less

inductive Comparison where
  | equal
  | less
  | lessOrEqual
  | greater
  | greaterOrEqual
deriving DecidableEq, Repr

namespace Comparison

/-- Whether a comparison holds of values that stand in a given order. -/
def accepts : Comparison → Ordering → Bool
  | .equal, o => o == .eq
  | .less, o => o == .lt
  | .lessOrEqual, o => o != .gt
  | .greater, o => o == .gt
  | .greaterOrEqual, o => o != .lt

/-- The comparison that one or two signs make, in either order. -/
def ofSigns? : Char → Option Char → Option Comparison
  | '=', none => some .equal
  | '<', none => some .less
  | '>', none => some .greater
  | '<', some '=' => some .lessOrEqual
  | '=', some '<' => some .lessOrEqual
  | '>', some '=' => some .greaterOrEqual
  | '=', some '>' => some .greaterOrEqual
  | _, _ => none

/-- Whether a character begins a comparison. -/
def isSign (c : Char) : Bool := c == '<' || c == '>' || c == '='

/-- Whether a comparison begins here. -/
def begins : List Lexeme → Bool
  | .sign c :: _ => isSign c
  | _ => false

/-- The comparison at the beginning of the lexemes. -/
def read : List Lexeme → Option (Comparison × List Lexeme)
  | .sign c :: .sign d :: rest =>
    if isSign d then (ofSigns? c (some d)).map (·, rest)
    else (ofSigns? c none).map (·, .sign d :: rest)
  | .sign c :: rest => (ofSigns? c none).map (·, rest)
  | _ => none

end Comparison

structure Condition where
  negated : Bool
  left : Expression
  comparison : Option (Comparison × Expression)

namespace Condition

/-- What stands inside the parentheses of a condition, and the lexemes after it. -/
def readBody (negated : Bool) (ls : List Lexeme) : Option (Condition × List Lexeme) := do
  let (left, rest) ← Expression.readFrom? true ls
  if Comparison.begins rest then
    let (comparison, rest) ← Comparison.read rest
    let (right, rest) ← Expression.readFrom? true rest
    some (⟨negated, left, some (comparison, right)⟩, rest)
  else some (⟨negated, left, none⟩, rest)

/-- A condition up to the parenthesis that closes it. -/
def readClosed (negated : Bool) (ls : List Lexeme) : Option (Condition × List Lexeme) :=
  match readBody negated ls with
  | some (c, .closing :: rest) => some (c, rest)
  | _ => none

/-- Whether a lexeme is a given keyword, whatever the case of its letters. -/
def isKeyword (keyword : Text) : Lexeme → Bool
  | .keyword t => Text.sameAscii t keyword
  | _ => false

/-- The condition at the beginning of the lexemes. -/
def read : List Lexeme → Option (Condition × List Lexeme)
  | .function name :: rest => if name = ("not" : Text) then readClosed true rest else none
  | .opening :: rest => readClosed false rest
  | l :: .opening :: rest => if isKeyword "not" l then readClosed true rest else none
  | _ => none

def holds (lookup : Text → Except CompileError Value) (default : Option Bool) (c : Condition) :
    Except CompileError Bool := do
  let left ← c.left.evaluate lookup default
  let holds ← match c.comparison with
    | none => pure left.isTrue
    | some (comparison, e) => do
      let right ← e.evaluate lookup default
      pure (((left.order right).map comparison.accepts).getD false)
  return holds != c.negated

end Condition

/-- Alternatives of conditions that hold together. -/
structure Guard where
  alternatives : List (List Condition)

namespace Guard

/-- Whether the next alternative begins here. -/
def separates : Lexeme → Bool
  | .comma => true
  | l => Condition.isKeyword "or" l

/-- Conditions joined by `and`, in alternatives joined by `or` or commas, up to the
end of the lexemes.  Every condition takes a lexeme, so a bound of their number on
the conditions is never reached. -/
def readFrom : Nat → List Lexeme → Option (List (List Condition))
  | 0, _ => none
  | n + 1, ls =>
    match Condition.read ls with
    | none => none
    | some (c, []) => some [[c]]
    | some (c, l :: rest) =>
      if Condition.isKeyword "and" l then
        match readFrom n rest with
        | some (first :: others) => some ((c :: first) :: others)
        | _ => none
      else if separates l then (readFrom n rest).map ([c] :: ·)
      else none

def read (t : Text) : Except CompileError Guard :=
  match (Lexeme.read? t).bind fun ls => readFrom (ls.length + 1) ls with
  | some alternatives => .ok ⟨alternatives⟩
  | none => .error (.unsupportedGuard t)

/-- Whether all conditions hold; those after one that fails do not matter. -/
def allHold (lookup : Text → Except CompileError Value) (default : Option Bool) :
    List Condition → Except CompileError Bool
  | [] => .ok true
  | c :: rest => do if ← c.holds lookup default then allHold lookup default rest else return false

/-- Whether some alternative holds; those after it do not matter. -/
def anyHolds (lookup : Text → Except CompileError Value) (default : Option Bool) :
    List (List Condition) → Except CompileError Bool
  | [] => .ok false
  | cs :: rest => do
    if ← allHold lookup default cs then return true else anyHolds lookup default rest

/-- Whether a guard holds, where `lookup` gives the values of variables and
`default` what `default()` is, if it is anything. -/
def holds (lookup : Text → Except CompileError Value) (default : Option Bool) (g : Guard) :
    Except CompileError Bool := anyHolds lookup default g.alternatives

end Guard

end StyleTypings.Less
