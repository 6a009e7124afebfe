/-
Tokens of CSS — a text cut into names, strings, numerals and signs.

Comments are no tokens: they vanish where they stand.  An address `url(...)`
without quotes is one token whatever it holds, since nothing inside it is ever
looked at.  Numbers, percentages and dimensions are one kind of token, told apart
by their unit.
-/
import StyleTypings.Css.Numeral

namespace StyleTypings.Css

inductive Token where
  | ident (name : Text)
  /-- A name with an opening parenthesis right after it. -/
  | function (name : Text)
  | atKeyword (name : Text)
  | hash (name : Text)
  | string (content : Text)
  /-- A string that the end of a line cuts short. -/
  | brokenString
  /-- An address without quotes, well formed or not. -/
  | address
  /-- A numeral; the unit is empty, `%`, or a name. -/
  | numeral (value : Float) (signed : Bool) (unit : Text)
  | blank
  | colon
  | semicolon
  | comma
  /-- A sign made of several characters: `~=`, `|=`, `^=`, `$=`, `*=`, `<!--`
  or `-->`. -/
  | sign (text : Text)
  | openParen
  | openSquare
  | openCurly
  | closeParen
  | closeSquare
  | closeCurly
  /-- Any other single character. -/
  | delim (c : Char)

/-! ## Addresses without quotes -/

/-- How far an address without quotes has been read: in its content, in the
blanks after it, or past a character that spoils it. -/
inductive AddressState where
  | content
  | gap
  | spoiled

/-- A character that spoils an address: a quote, an opening parenthesis or a
control character. -/
def spoilsAddress (c : Char) : Bool :=
  let n := c.toNat
  c == '"' || c == '\'' || c == '(' || (1 ≤ n && n ≤ 8) || n == 0xB ||
  (0xE ≤ n && n ≤ 0x1F) || n == 0x7F

/-- The text after the parenthesis that closes the address. -/
def skipAddress : AddressState → Nat → Text → Text
  | _, _, [] => []
  | state, skip + 1, _ :: rest => skipAddress state skip rest
  | state, 0, c :: rest =>
    if c = ')' then rest
    else
      match state with
      | .content =>
        if isCssBlank c then skipAddress .gap 0 rest
        else if spoilsAddress c then skipAddress .spoiled 0 rest
        else if c = '\\' then
          if atNewline rest then skipAddress .spoiled 0 rest
          else skipAddress .content (escape rest).2 rest
        else skipAddress .content 0 rest
      | .gap => skipAddress (if isCssBlank c then .gap else .spoiled) 0 rest
      | .spoiled =>
        match c, rest with
        | '\\', ')' :: _ => skipAddress .spoiled 1 rest
        | '\\', '\\' :: _ => skipAddress .spoiled 1 rest
        | _, _ => skipAddress .spoiled 0 rest

/-- The text after an address, given the text after `url(`; nothing when a quote
follows, for then the address is an ordinary argument. -/
def afterAddress? (t : Text) : Option Text :=
  match t.dropWhile isCssBlank with
  | [] => some []
  | c :: rest => if c = '"' ∨ c = '\'' then none else some (skipAddress .content 0 (c :: rest))

/-! ## One token -/

/-- The text after a comment, given the text after its `/*`. -/
def skipComment : Text → Text
  | [] => []
  | '*' :: '/' :: rest => rest
  | _ :: rest => skipComment rest

/-- The identifier or function at the beginning of the text. -/
def takeIdentLike (t : Text) : Token × Text :=
  let (name, rest) := takeName 0 t
  match rest with
  | '(' :: after =>
    if name.sameAscii "url" then
      match afterAddress? after with
      | some rest => (.address, rest)
      | none => (.function name, after)
    else (.function name, after)
  | _ => (.ident name, rest)

/-- The numeral at the beginning of the text with its unit. -/
def takeMeasure (t : Text) : Token × Text :=
  let (n, rest) := takeNumeral t
  if n.percent then (.numeral n.value n.signed ['%'], rest)
  else if startsName rest then
    let (unit, rest) := takeName 0 rest
    (.numeral n.value n.signed unit, rest)
  else (.numeral n.value n.signed [], rest)

def takeQuoted (quote : Char) (t : Text) : Token × Text :=
  match takeString quote 0 t with
  | (some content, rest) => (.string content, rest)
  | (none, rest) => (.brokenString, rest)

/-- A sign of two characters when an equals sign follows. -/
def takeMatcher (c : Char) (rest : Text) : Token × Text :=
  match rest with
  | '=' :: after => (.sign [c, '='], after)
  | _ => (.delim c, rest)

/-- The name after a `#`. -/
def takeHash (rest : Text) : Token × Text :=
  let named := startsName rest || match rest with
    | c :: _ => c.isDigit || c == '-'
    | [] => false
  if named then
    let (name, after) := takeName 0 rest
    (.hash name, after)
  else (.delim '#', rest)

/-- The name after an `@`. -/
def takeAtKeyword (rest : Text) : Token × Text :=
  if startsName rest then
    let (name, after) := takeName 0 rest
    (.atKeyword name, after)
  else (.delim '@', rest)

/-- The token at the beginning of a text that is not empty; no token where a
comment stands. -/
def takeToken (c : Char) (rest : Text) : Option Token × Text :=
  let only (token : Token) := (some token, rest)
  let some' (r : Token × Text) := (some r.1, r.2)
  match c with
  | '"' => some' (takeQuoted '"' rest)
  | '\'' => some' (takeQuoted '\'' rest)
  | '#' => some' (takeHash rest)
  | '@' => some' (takeAtKeyword rest)
  | '(' => only .openParen
  | ')' => only .closeParen
  | '[' => only .openSquare
  | ']' => only .closeSquare
  | '{' => only .openCurly
  | '}' => only .closeCurly
  | ',' => only .comma
  | ':' => only .colon
  | ';' => only .semicolon
  | '$' => some' (takeMatcher '$' rest)
  | '*' => some' (takeMatcher '*' rest)
  | '^' => some' (takeMatcher '^' rest)
  | '|' => some' (takeMatcher '|' rest)
  | '~' => some' (takeMatcher '~' rest)
  | '+' => if startsNumeral (c :: rest) then some' (takeMeasure (c :: rest)) else only (.delim c)
  | '.' => if startsNumeral (c :: rest) then some' (takeMeasure (c :: rest)) else only (.delim c)
  | '-' =>
    if startsNumeral (c :: rest) then some' (takeMeasure (c :: rest))
    else
      match rest with
      | '-' :: '>' :: after => (some (.sign ['-', '-', '>']), after)
      | _ => if startsName (c :: rest) then some' (takeIdentLike (c :: rest)) else only (.delim c)
  | '/' =>
    match rest with
    | '*' :: after => (none, skipComment after)
    | _ => only (.delim c)
  | '<' =>
    match rest with
    | '!' :: '-' :: '-' :: after => (some (.sign ['<', '!', '-', '-']), after)
    | _ => only (.delim c)
  | '\\' => if atNewline rest then only (.delim c) else some' (takeIdentLike (c :: rest))
  | _ =>
    if isCssBlank c then (some .blank, rest.dropWhile isCssBlank)
    else if c.isDigit then some' (takeMeasure (c :: rest))
    else if isNameStart c then some' (takeIdentLike (c :: rest))
    else only (.delim c)

/-! ## All tokens -/

/-- The tokens of a text; every step takes at least one character, so as many
steps as there are characters are enough. -/
def tokensWithin : Nat → Text → List Token
  | 0, _ => []
  | _ + 1, [] => []
  | steps + 1, c :: rest =>
    let (token, after) := takeToken c rest
    token.toList ++ tokensWithin steps after

def tokens (t : Text) : List Token := tokensWithin t.length t

end StyleTypings.Css
