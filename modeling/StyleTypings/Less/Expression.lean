/-
Expressions — what can be computed in arguments, variables and guards.

The text of an expression is cut into lexemes by way of the components of CSS.
The grammar has three levels: sums of products of factors.  A slash divides only
inside parentheses, and the parentheses of a function call are none.  Whatever does
not fit the grammar as a whole, such as a list with spaces between its items, is no
expression.
-/
import StyleTypings.Less.Value
import StyleTypings.Css.Component

namespace StyleTypings.Less

/-! ## Lexemes -/

inductive Lexeme where
  | number (value : Float) (unit : Text)
  | quoted (text : Text)
  | keyword (text : Text)
  | variable (name : Text)
  /-- The name of a function, in lower case, with its opening parenthesis. -/
  | function (name : Text)
  /-- One of `+`, `-`, `*`, `/`, `<`, `>` and `=`. -/
  | sign (c : Char)
  | comma
  | opening
  | closing

namespace Lexeme

/-- Whether a sign right after the lexeme is an operator. -/
def isOperand : Lexeme → Bool
  | .number .. | .quoted _ | .keyword _ | .variable _ | .closing => true
  | _ => false

/-- Whether a character is a sign of expressions. -/
def isSign (c : Char) : Bool :=
  c == '+' || c == '-' || c == '*' || c == '/' || c == '<' || c == '>' || c == '='

/-- The lexemes of a numeral.  A sign glued to an operand is an operator: `2-1` is
read as the numerals `2` and `-1`. -/
def ofNumeral (value : Float) (signed : Bool) (unit : Text) (afterOperand : Bool) : List Lexeme :=
  if signed && afterOperand then
    [.sign (if (Double.ofFloat value).isNegative then '-' else '+'), .number value.abs unit]
  else [.number value unit]

/-- The lexemes of a token, if expressions have any such token. -/
def ofToken (afterOperand : Bool) : Css.Token → Option (List Lexeme)
  | .string t => some [.quoted t]
  | .numeral value signed unit => some (ofNumeral value signed unit afterOperand)
  | .ident name => some [.keyword name]
  | .hash name => some [.keyword ('#' :: name)]
  | .atKeyword name => some [.variable name]
  | .delim c => if isSign c then some [.sign c] else none
  | .comma => some [.comma]
  | _ => none

/-- What stands right before a component: nothing that matters, an operand, or the
tilde that makes a keyword of a string. -/
inductive Before where
  | other
  | operand
  | tilde
deriving DecidableEq, Repr

/-- What stands before the component after some lexemes. -/
def Before.ofLexemes (ls : List Lexeme) : Before :=
  if (ls.getLast?.map isOperand).getD false then .operand else .other

/-- The lexeme that a bracket begins with, if expressions have such brackets. -/
def ofOpener : Css.Opener → Option Lexeme
  | .function name => some (.function (Text.lowerAscii name))
  | .paren => some .opening
  | _ => none

mutual

/-- The lexemes of a component, and what stands before the next. -/
def ofComponent (before : Before) : Css.Component → Option (List Lexeme × Before)
  | .token .blank => some ([], if before = .tilde then .tilde else .other)
  | .token (.delim '~') => if before = .tilde then none else some ([], .tilde)
  | .token (.string t) =>
    some (if before = .tilde then [.keyword t] else [.quoted t], .operand)
  | .token t =>
    if before = .tilde then none
    else (ofToken (before = .operand) t).map fun ls => (ls, Before.ofLexemes ls)
  | .block opener content =>
    if before = .tilde then none
    else
      match ofOpener opener, ofComponents .other content with
      | some l, some inside => some (l :: inside ++ [.closing], .operand)
      | _, _ => none

/-- The lexemes of components. -/
def ofComponents (before : Before) : List Css.Component → Option (List Lexeme)
  | [] => if before = .tilde then none else some []
  | c :: rest =>
    match ofComponent before c with
    | some (here, next) => (ofComponents next rest).map (here ++ ·)
    | none => none

end

/-- The lexemes of a text, if it holds nothing but them. -/
def read? (t : Text) : Option (List Lexeme) := ofComponents .other (Css.components t)

end Lexeme

/-! ## Expressions -/

inductive Operator where
  | add
  | subtract
  | multiply
  | divide
deriving DecidableEq, Repr

def Operator.sign : Operator → Char
  | .add => '+'
  | .subtract => '-'
  | .multiply => '*'
  | .divide => '/'

/-- The functions that expressions can call. -/
inductive Function where
  | default
  | isNumber
  | isString
  | isKeyword
  | isPixel
  | isEm
  | isPercentage
  | isUnit
deriving DecidableEq, Repr

def Function.ofName? (name : Text) : Option Function :=
  [(("default" : Text), Function.default), ("isnumber", .isNumber), ("isstring", .isString),
    ("iskeyword", .isKeyword), ("ispixel", .isPixel), ("isem", .isEm),
    ("ispercentage", .isPercentage), ("isunit", .isUnit)].lookup name

inductive Expression where
  | value (v : Value)
  | variable (name : Text)
  | negate (e : Expression)
  | operation (op : Operator) (left right : Expression)
  | call (f : Function) (arguments : List Expression)

namespace Expression

def isLiteral : Expression → Bool
  | .value _ => true
  | _ => false

/-! ## Grammar -/

/-- The operator of sums that a lexeme is. -/
def sumOperator? : Lexeme → Option Operator
  | .sign '+' => some .add
  | .sign '-' => some .subtract
  | _ => none

/-- The operator of products that a lexeme is, inside parentheses or outside. -/
def productOperator? (inner : Bool) : Lexeme → Option Operator
  | .sign '*' => some .multiply
  | .sign '/' => if inner then some .divide else none
  | _ => none

/-- An expression with the lexemes after it. -/
abbrev Reading := Option (Expression × List Lexeme)

mutual

/-- A sum at the beginning of the lexemes.  Like all readers here it takes a bound on
its depth, which four times the number of lexemes never reaches, and whether
parentheses are open. -/
def readSum (inner : Bool) : Nat → List Lexeme → Reading
  | 0, _ => none
  | n + 1, ls =>
    match readProduct inner n ls with
    | some (left, rest) => readSumTail inner n left rest
    | none => none

/-- The rest of a sum. -/
def readSumTail (inner : Bool) : Nat → Expression → List Lexeme → Reading
  | 0, _, _ => none
  | _ + 1, left, [] => some (left, [])
  | n + 1, left, l :: rest =>
    match sumOperator? l with
    | none => some (left, l :: rest)
    | some op =>
      match readProduct inner n rest with
      | some (right, rest) => readSumTail inner n (.operation op left right) rest
      | none => none

def readProduct (inner : Bool) : Nat → List Lexeme → Reading
  | 0, _ => none
  | n + 1, ls =>
    match readFactor inner n ls with
    | some (left, rest) => readProductTail inner n left rest
    | none => none

/-- The rest of a product. -/
def readProductTail (inner : Bool) : Nat → Expression → List Lexeme → Reading
  | 0, _, _ => none
  | _ + 1, left, [] => some (left, [])
  | n + 1, left, l :: rest =>
    match productOperator? inner l with
    | none => some (left, l :: rest)
    | some op =>
      match readFactor inner n rest with
      | some (right, rest) => readProductTail inner n (.operation op left right) rest
      | none => none

/-- A value, a variable, a negation, a call, or anything in parentheses. -/
def readFactor (inner : Bool) : Nat → List Lexeme → Reading
  | 0, _ => none
  | _ + 1, [] => none
  | n + 1, l :: rest =>
    match l with
    | .sign '-' => (readFactor inner n rest).map fun (e, rest) => (.negate e, rest)
    | .number x unit => some (.value (.number x unit), rest)
    | .quoted t => some (.value (.quoted t), rest)
    | .keyword t => some (.value (.keyword t), rest)
    | .variable name => some (.variable name, rest)
    | .opening =>
      match readSum true n rest with
      | some (e, .closing :: rest) => some (e, rest)
      | _ => none
    | .function name =>
      match Function.ofName? name, rest with
      | none, _ => none
      | some f, .closing :: rest => some (.call f [], rest)
      | some f, rest => (readArguments inner n rest).map fun (es, rest) => (.call f es, rest)
    | _ => none

/-- The arguments of a call, at least one, with the parenthesis that closes them. -/
def readArguments (inner : Bool) : Nat → List Lexeme → Option (List Expression × List Lexeme)
  | 0, _ => none
  | n + 1, ls =>
    match readSum inner n ls with
    | some (e, .closing :: rest) => some ([e], rest)
    | some (e, .comma :: rest) => (readArguments inner n rest).map fun (es, rest) => (e :: es, rest)
    | _ => none

end

/-- A depth that no reading of these lexemes reaches. -/
def readingDepth (ls : List Lexeme) : Nat := 4 * ls.length + 4

/-- The expression at the beginning of the lexemes. -/
def readFrom? (inner : Bool) (ls : List Lexeme) : Reading := readSum inner (readingDepth ls) ls

def read? (t : Text) : Option Expression :=
  match (Lexeme.read? t).bind (readFrom? false) with
  | some (e, []) => some e
  | _ => none

/-! ## Evaluation -/

/-- The result of an operation.  Only numbers can be operated on; the result has the
unit of the left one, or of the right one if the left has none. -/
def operate (op : Operator) (left right : Value) : Except CompileError Value :=
  let invalid := CompileError.invalidOperation (left.toCss ++ [' ', op.sign, ' '] ++ right.toCss)
  match left, right with
  | .number x unit, .number y unit' =>
    let unit := if unit.isEmpty then unit' else unit
    match op with
    | .add => .ok (.number (x + y) unit)
    | .subtract => .ok (.number (x - y) unit)
    | .multiply => .ok (.number (x * y) unit)
    | .divide => if y == 0 then .error invalid else .ok (.number (x / y) unit)
  | _, _ => .error invalid

/-- The negative of a number. -/
def negated : Value → Except CompileError Value
  | .number x unit => .ok (.number (-x) unit)
  | v => .error (.invalidOperation ('-' :: v.toCss))

/-- The result of a call.  `default()` has one only in the guard of a mixin. -/
def apply (default : Option Bool) (f : Function) (arguments : List Value) :
    Except CompileError Value :=
  let first (holds : Value → Bool) : Except CompileError Value :=
    .ok (.ofBool ((arguments.head?.map holds).getD false))
  match f with
  | .default =>
    match default with
    | some b => .ok (.ofBool b)
    | none => .error (.unsupportedGuard "default()")
  | .isNumber => first fun | .number .. => true | _ => false
  | .isString => first fun | .quoted _ => true | _ => false
  | .isKeyword => first fun | .keyword _ => true | _ => false
  | .isPixel => first (Value.hasUnit "px")
  | .isEm => first (Value.hasUnit "em")
  | .isPercentage => first (Value.hasUnit "%")
  | .isUnit =>
    match arguments with
    | v :: unit :: _ => .ok (.ofBool (v.hasUnit unit.text))
    | _ => .ok (.ofBool false)

mutual

/-- The value of an expression, where `lookup` gives the values of variables and
`default` what `default()` is, if it is anything. -/
def evaluate (lookup : Text → Except CompileError Value) (default : Option Bool) :
    Expression → Except CompileError Value
  | .value v => .ok v
  | .variable name => lookup name
  | .negate e => do negated (← evaluate lookup default e)
  | .operation op left right => do
    let l ← evaluate lookup default left
    let r ← evaluate lookup default right
    operate op l r
  | .call f arguments => do apply default f (← evaluateAll lookup default arguments)

/-- The values of expressions, in order. -/
def evaluateAll (lookup : Text → Except CompileError Value) (default : Option Bool) :
    List Expression → Except CompileError (List Value)
  | [] => .ok []
  | e :: rest => do
    let v ← evaluate lookup default e
    return v :: (← evaluateAll lookup default rest)

end

end Expression

end StyleTypings.Less
