/-
Numbers of JSON — as far as messages show them.

No setting is a number, so a number is read only to be cited in a message.  Whole
numbers of at most sixty-four bits are cited exactly.  Every other number is cited as
the double that its digits give: the digits up to sixty-four bits, multiplied or
divided by a power of ten.
-/
import StyleTypings.Json.Cursor
import StyleTypings.Decimal.Positional

namespace StyleTypings.Json

/-- The largest number whose digits are all kept. -/
def maxDigits : Nat := Nat.pow 2 64 - 1

/-- The largest exponent whose digits are all kept. -/
def maxExponent : Nat := Nat.pow 2 31 - 1

/-- A number continued with the digits of a text, as long as it does not exceed a
limit: the number, how many digits it took, and the rest of the text. -/
def takeDigits (limit value : Nat) : Text → Nat × Nat × Text
  | [] => (value, 0, [])
  | c :: rest =>
    let more := value * 10 + (c.toNat - '0'.toNat)
    if c.isDigit && more ≤ limit then
      let (value, count, rest) := takeDigits limit more rest
      (value, count + 1, rest)
    else (value, 0, c :: rest)

/-- A double over a power of ten beyond the largest there is. -/
def scaleDown : Nat → Float → Nat → Float
  | 0, x, _ => x
  | steps + 1, x, exponent =>
    if exponent ≤ 308 then x / Float.ofScientific 1 false exponent
    else if x == 0 then x
    else scaleDown steps (x / Float.ofScientific 1 false 308) (exponent - 308)

/-- The double with given digits and exponent, if it is in range. -/
def scaled? (digits : Nat) (exponent : Int) : Option Float :=
  let x := Float.ofNat digits
  if exponent < 0 then some (scaleDown 8 x exponent.natAbs)
  else if exponent ≤ 308 then
    let y := x * Float.ofScientific 1 false exponent.natAbs
    if y.isInf then none else some y
  else if x == 0 then some x
  else none

/-- How a message cites a double. -/
def citeFloat (negative : Bool) (x : Float) : Text :=
  ("floating point `" : Text) ++ (Double.ofFloat (if negative then -x else x)).scientific ++ ['`']

/-- How a message cites a whole number. -/
def citeWhole (negative : Bool) (n : Nat) : Text :=
  if negative && (n = 0 || Nat.pow 2 63 < n) then citeFloat true (Float.ofNat n)
  else ("integer `" : Text) ++ (if negative then ['-'] else []) ++ Text.ofNat n ++ ['`']

namespace Reader

/-- The character right here, which stays where it is. -/
def ahead : Reader (Option Char) := return (← get).rest.head?

/-- Whether a digit is right here. -/
def digitAhead : Reader Bool := return ((← get).rest.head?.map Char.isDigit).getD false

/-- Whether one of two characters is right here. -/
def eitherAhead (c d : Char) : Reader Bool := do
  let a ← ahead
  return a == some c || a == some d

/-- The digits right here passed; how many they are. -/
def skipDigits : Reader Nat := do
  let n := ((← get).rest.takeWhile Char.isDigit).length
  modify (Cursor.advance n)
  return n

/-- Digits right here as a continuation of a number. -/
def digits (limit value : Nat) : Reader (Nat × Nat) := do
  let (value, count, _) := takeDigits limit value (← get).rest
  modify (Cursor.advance count)
  return (value, count)

/-- The citation of a double with given digits and exponent. -/
def float (negative : Bool) (value : Nat) (exponent : Int) : Reader Text := do
  match scaled? value exponent with
  | some x => return citeFloat negative x
  | none => failHere .numberOutOfRange

/-- The rest of a number from its `e` on. -/
def exponentPart (negative : Bool) (value : Nat) (exponent : Int) : Reader Text := do
  skip
  let down := (← ahead) == some '-'
  if ← eitherAhead '+' '-' then skip
  if (← ahead).isNone then failHere .endInValue
  if !(← digitAhead) then failAhead .invalidNumber
  let (e, _) ← digits maxExponent 0
  if ← digitAhead then
    skip
    if value ≠ 0 && ! down then failHere .numberOutOfRange
    let _ ← skipDigits
    return citeFloat negative 0
  float negative value (if down then exponent - e else exponent + e)

/-- The rest of a number after its digits: an exponent, or nothing. -/
def exponentOrEnd (negative : Bool) (value : Nat) (exponent : Int) : Reader Text := do
  if ← eitherAhead 'e' 'E' then exponentPart negative value exponent
  else float negative value exponent

/-- The rest of a number from its point on. -/
def fractionPart (negative : Bool) (value : Nat) (exponent : Int) : Reader Text := do
  skip
  let (value, count) ← digits maxDigits value
  let more ← skipDigits
  if count + more = 0 then
    if (← ahead).isNone then failHere .endInValue else failAhead .invalidNumber
  exponentOrEnd negative value (exponent - count)

/-- The citation of the number right here, after its sign. -/
def number (negative : Bool) : Reader Text := do
  if (← ahead).isNone then failHere .endInValue
  if !(← digitAhead) then failAhead .invalidNumber
  let zero := (← ahead) == some '0'
  let (value, _) ← if zero then (do skip; return (0, 1)) else digits maxDigits 0
  if zero && (← digitAhead) then failAhead .invalidNumber
  let more ← skipDigits
  if (← ahead) == some '.' then fractionPart negative value more
  else if ← eitherAhead 'e' 'E' then exponentPart negative value more
  else if more = 0 then return citeWhole negative value
  else float negative value more

/-- A number after its sign, passed. -/
def skipNumber : Reader Unit := do
  if !(← digitAhead) then failAhead .invalidNumber
  if (← ahead) == some '0' then
    skip
    if ← digitAhead then failAhead .invalidNumber
  else
    let _ ← skipDigits
  if (← ahead) == some '.' then
    skip
    if (← skipDigits) = 0 then failAhead .invalidNumber
  if ← eitherAhead 'e' 'E' then
    skip
    if ← eitherAhead '+' '-' then skip
    if !(← digitAhead) then failAhead .invalidNumber
    let _ ← skipDigits

end Reader

end StyleTypings.Json
