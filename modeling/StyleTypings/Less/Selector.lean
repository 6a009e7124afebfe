/-
Selectors — what the prelude of a block selects.

A prelude is a list of selectors, perhaps with a guard behind it.  Inside another
block every selector is joined to every selector of that block: in the place of
each `&`, or behind it as a descendant.
-/
import StyleTypings.Less.Splitting
import StyleTypings.Text.Letter

namespace StyleTypings.Less

namespace Selector

/-! ## Guards and extensions -/

/-- What follows the word `when` where a guard begins: after a blank, and before a
blank or a parenthesis. -/
def afterWhen? : Text → Option Text
  | c :: 'w' :: 'h' :: 'e' :: 'n' :: d :: rest =>
    if isBlank c && (isBlank d || d == '(') then some (d :: rest) else none
  | _ => none

/-- A prelude cut at the first guard: what stands before it, and what stands after
`when`. -/
def breakGuard : Text → Text × Option Text
  | [] => ([], none)
  | c :: rest =>
    match afterWhen? (c :: rest) with
    | some guard => ([], some guard)
    | none =>
      let (before, guard) := breakGuard rest
      (c :: before, guard)

def splitGuard (prelude : Text) : Text × Option Text :=
  match breakGuard prelude with
  | (before, some guard) => (Text.trimRight before, some (Text.trim guard))
  | (_, none) => (prelude, none)

/-- A selector without the first `:extend(...)` in it, if there is one. -/
def dropExtend? (t : Text) : Option Text :=
  (Text.breakOn? ":extend(" t).map fun (before, after) =>
    match closeParens 0 after with
    | some (_, rest) => before ++ rest
    | none => before

/-- A selector without the first so many `:extend(...)`. -/
def dropExtends : Nat → Text → Text
  | 0, t => t
  | n + 1, t =>
    match dropExtend? t with
    | some t => dropExtends n t
    | none => t

/-- A selector without any `:extend(...)`.  Every one takes characters, so as many as
there are characters are enough. -/
def withoutExtends (t : Text) : Text := dropExtends t.length t

/-! ## Joining -/

/-- The combinations of a text with one more piece, a parent between them. -/
def combine (parents : List Text) (combinations : List Text) (piece : Text) : List Text :=
  combinations.flatMap fun start => parents.map fun parent => start ++ parent ++ piece

def joinOne (parents : List Text) (selector : Text) : List Text :=
  if parents.isEmpty then [Text.collapse (selector.filter (· != '&'))]
  else
    match selector.splitOn '&' with
    | first :: piece :: pieces => (piece :: pieces).foldl (combine parents) [first]
    | _ => parents.map fun parent => parent ++ [' '] ++ selector

/-- The selectors of a list, joined to every parent. -/
def join (parents : List Text) (list : Text) : List Text :=
  (((splitTop ',' list).map Text.collapse).filter (! ·.isEmpty)).flatMap (joinOne parents)

/-! ## At-rules -/

/-- The name of an at-rule, without its sign, in lower case and without the mark of
a vendor: `keyframes` for `-webkit-keyframes spin`. -/
def atRuleName (t : Text) : Text :=
  let name := Text.lowerAscii (t.takeWhile isIdentChar)
  match name with
  | '-' :: rest =>
    match Text.breakAt? '-' rest with
    | some (_, plain) => plain
    | none => name
  | _ => name

/-- The at-rules whose blocks belong to the selectors around them. -/
def bubbling : List Text := ["media", "supports", "container", "layer", "document"]

/-- Whether the block of an at-rule belongs to the selectors around it. -/
def bubbles (atRule : Text) : Bool := bubbling.contains (atRuleName atRule)

end Selector

end StyleTypings.Less
