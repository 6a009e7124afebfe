/-
Values — what variables, arguments and guards hold.

A value is a number with a unit, a string in quotes, or a keyword, which is any
other text.  Numbers have an order among themselves; texts are only ever equal.
-/
import StyleTypings.Less.Error
import StyleTypings.Decimal.Positional

namespace StyleTypings.Less

inductive Value where
  /-- A number; the unit may be empty. -/
  | number (value : Float) (unit : Text)
  | quoted (text : Text)
  | keyword (text : Text)

namespace Value

def ofBool (b : Bool) : Value := .keyword (if b then "true" else "false")

/-- Whether a value counts as true; only one keyword does. -/
def isTrue : Value → Bool
  | .keyword t => t == ("true" : Text)
  | _ => false

/-- A number rounded to eight decimal places, with zero always positive. -/
def rounded (x : Float) : Float := (x * 1e8).round / 1e8 + 0.0

/-- The value as it is written in a style sheet.  Strings keep their quotes. -/
def toCss : Value → Text
  | .number x unit => (Double.ofFloat (rounded x)).positional ++ unit
  | .quoted t => ['"'] ++ t ++ ['"']
  | .keyword t => t

/-- The value as it appears in a selector. -/
def text : Value → Text
  | .quoted t => t
  | v => v.toCss

/-- Whether a value is a number with a unit, whatever the case of its letters. -/
def hasUnit (unit : Text) : Value → Bool
  | .number _ u => Text.sameAscii u unit
  | _ => false

/-- How one number stands to another; nothing when one of them is no number. -/
def orderFloat (x y : Float) : Option Ordering :=
  if x < y then some .lt else if x == y then some .eq else if y < x then some .gt else none

/-- How one value stands to another. -/
def order : Value → Value → Option Ordering
  | .number x _, .number y _ => orderFloat x y
  | .quoted s, .quoted t => if s = t then some .eq else none
  | .quoted s, .keyword t => if s = t then some .eq else none
  | .keyword s, .quoted t => if s = t then some .eq else none
  | .keyword s, .keyword t => if s = t then some .eq else none
  | _, _ => none

end Value

end StyleTypings.Less
