/-
Glob patterns — texts that stand for many texts.

`?` stands for any character, `*` for any characters, slashes included, `[...]` for
one character of a class and `[!...]` for one outside it.  `**`, which has to be all
that stands between two slashes, stands for any number of directories.

A match is tried with every star taking as little as possible first.  A try that uses
up the text before the pattern is at an end decides that there is no match at all:
no star could leave more.
-/
import StyleTypings.Text.Basic

namespace StyleTypings

namespace Glob

/-- A character or a range of characters in a class. -/
inductive Specifier where
  | char (c : Char)
  | range (first last : Char)
deriving DecidableEq, Repr

/-- Whether a character is one that a specifier stands for. -/
def Specifier.admits (c : Char) : Specifier → Bool
  | .char d => c == d
  | .range first last => first ≤ c && c ≤ last

inductive Token where
  | char (c : Char)
  | anyChar
  | anySequence
  /-- Any number of directories. -/
  | anyDirectories
  | oneOf (specifiers : List Specifier)
  | noneOf (specifiers : List Specifier)
deriving DecidableEq, Repr

/-! ## Reading -/

/-- Why a text is no pattern. -/
inductive Flaw where
  | wildcards
  | directoryWildcards
  | invalidRange
deriving DecidableEq, Repr

/-- A flaw, and the position it is reported near. -/
structure PatternError where
  position : Nat
  flaw : Flaw
deriving DecidableEq, Repr

/-- The wording of a flaw. -/
def Flaw.message : Flaw → Text
  | .wildcards => ("wildcards are either regular `*` or recursive `**`" : Text)
  | .directoryWildcards => ("recursive wildcards must form a single path component" : Text)
  | .invalidRange => ("invalid range pattern" : Text)

/-- The wording of an error. -/
def PatternError.message (e : PatternError) : Text :=
  ("Pattern syntax error near position " : Text) ++ Text.ofNat e.position ++ (": " : Text) ++
    e.flaw.message

/-- The specifiers in the content of a class.  A hyphen between two characters makes a
range of them. -/
def specifiers : Text → List Specifier
  | first :: '-' :: last :: rest => .range first last :: specifiers rest
  | c :: rest => .char c :: specifiers rest
  | [] => []

/-- The class after an opening bracket, and how many characters it takes.  The first
character of its content may be a closing bracket. -/
def readClass : Text → Option (Token × Nat)
  | '!' :: c :: rest =>
    (Text.breakAt? ']' rest).map fun (content, _) =>
      (.noneOf (specifiers (c :: content)), content.length + 3)
  | '!' :: [] => none
  | c :: rest =>
    (Text.breakAt? ']' rest).map fun (content, _) =>
      (.oneOf (specifiers (c :: content)), content.length + 2)
  | [] => none

/-- The tokens with one for any number of directories.  One right after another is
the same one, except at the beginning. -/
def addDirectories (reversed : List Token) : List Token :=
  if reversed.length > 1 && reversed.head? == some .anyDirectories then reversed
  else .anyDirectories :: reversed

/-- How many characters `**` takes with the slash after it, given the position, the
character before it and the text after it. -/
def readDirectories (position : Nat) (before : Option Char) (after : Text) :
    Except PatternError Nat :=
  match before with
  | some c =>
    if c = '/' then closing after else .error ⟨position - 1, .directoryWildcards⟩
  | none => closing after
where
  closing : Text → Except PatternError Nat
    | [] => .ok 2
    | c :: _ => if c = '/' then .ok 3 else .error ⟨position + 2, .directoryWildcards⟩

/-- The tokens of a text from a position on, given the character before it, how many
characters are still to be passed, and the tokens so far, last first. -/
def readFrom (position : Nat) (before : Option Char) (skip : Nat) (reversed : List Token) :
    Text → Except PatternError (List Token)
  | [] => .ok reversed.reverse
  | c :: rest =>
    match skip with
    | skip + 1 => readFrom (position + 1) (some c) skip reversed rest
    | 0 =>
      let next (taken : Nat) (reversed : List Token) :=
        readFrom (position + 1) (some c) (taken - 1) reversed rest
      if c = '?' then next 1 (.anyChar :: reversed)
      else if c = '*' then
        match (rest.takeWhile (· == '*')).length with
        | 0 => next 1 (.anySequence :: reversed)
        | 1 =>
          match readDirectories position before (rest.drop 1) with
          | .ok taken => next taken (addDirectories reversed)
          | .error e => .error e
        | _ => .error ⟨position + 2, .wildcards⟩
      else if c = '[' then
        match readClass rest with
        | some (token, taken) => next (taken + 1) (token :: reversed)
        | none => .error ⟨position, .invalidRange⟩
      else next 1 (.char c :: reversed)

def tokensOf (t : Text) : Except PatternError (List Token) := readFrom 0 none 0 [] t

/-! ## Matching -/

/-- How a try ends. -/
inductive Outcome where
  | match
  /-- No match, but a star before may take more. -/
  | mismatch
  /-- No match, whatever a star before takes. -/
  | exhausted
deriving DecidableEq, Repr

/-- Whether a token stands for a character. -/
def Token.admits (c : Char) : Token → Bool
  | .char d => c == d
  | .anyChar => true
  | .oneOf s => s.any (·.admits c)
  | .noneOf s => ! s.any (·.admits c)
  | .anySequence => false
  | .anyDirectories => false

/-- The first try that is no mismatch, among tries of the rest of a pattern on the
text and on every shorter end of it. -/
def tryEnds (try' : Text → Outcome) : Text → Outcome
  | [] => try' []
  | c :: rest =>
    match try' (c :: rest) with
    | .mismatch => tryEnds try' rest
    | outcome => outcome

/-- The first try that is no mismatch, among tries of the rest of a pattern on every
end of the text after a slash, and at last on nothing. -/
def tryAfterSlashes (try' : Text → Outcome) : Text → Outcome
  | [] => try' []
  | c :: rest =>
    if c = '/' then
      match try' rest with
      | .mismatch => tryAfterSlashes try' rest
      | outcome => outcome
    else tryAfterSlashes try' rest

/-- How a try of some tokens on a text ends. -/
def attempt : List Token → Text → Outcome
  | [], [] => .match
  | [], _ :: _ => .mismatch
  | .anySequence :: ts, t => tryEnds (attempt ts) t
  | .anyDirectories :: ts, t =>
    match attempt ts t with
    | .mismatch => tryAfterSlashes (attempt ts) t
    | outcome => outcome
  | _ :: _, [] => .exhausted
  | token :: ts, c :: rest => if token.admits c then attempt ts rest else .mismatch

def admits (ts : List Token) (t : Text) : Bool := attempt ts t == .match

end Glob

/-- A glob pattern with the text it is written as. -/
structure Glob where
  text : Text
  tokens : List Glob.Token
deriving DecidableEq, Repr

namespace Glob

def read (t : Text) : Except PatternError Glob := (tokensOf t).map fun ts => ⟨t, ts⟩

/-- Whether a pattern stands for a text. -/
def admitsText (g : Glob) (t : Text) : Bool := admits g.tokens t

end Glob

end StyleTypings
