/-
Numerals of CSS — a sign, digits, a fraction and an exponent.

The value of a numeral is a single precision number.  It is worked out in double
precision, the whole part digit by digit, the fraction as a sum of digits times
falling powers of a tenth, the exponent as a power of ten, and rounded once at
the end.  A percentage keeps its hundredth in single precision, so `0.1%` carries
the error of two roundings.
-/
import StyleTypings.Css.Name

namespace StyleTypings.Css

/-- A numeral as read: its value, whether a sign was written, and whether a
percent sign follows it. -/
structure Numeral where
  value : Float
  signed : Bool
  percent : Bool

def digitValue (c : Char) : Float := Float.ofNat (c.toNat - '0'.toNat)

def wholePart (digits : Text) : Float := digits.foldl (fun x c => x * 10.0 + digitValue c) 0.0

/-- The digits after the point: their sum, each times its power of a tenth. -/
def fractionPart (digits : Text) : Float :=
  (digits.foldl (fun (sum, factor) c => (sum + digitValue c * factor, factor * 0.1))
    ((0.0 : Float), (0.1 : Float))).1

/-- A sign at the beginning of the text: whether there is one, its factor, and the
text after it. -/
def takeSign : Text → Bool × Float × Text
  | '-' :: rest => (true, -1.0, rest)
  | '+' :: rest => (true, 1.0, rest)
  | t => (false, 1.0, t)

def atDigit : Text → Bool
  | c :: _ => c.isDigit
  | [] => false

def startsUnsigned : Text → Bool
  | '.' :: rest => atDigit rest
  | t => atDigit t

def startsNumeral (t : Text) : Bool := startsUnsigned (takeSign t).2.2

/-- The fraction at the beginning of the text, if a point and a digit begin it. -/
def takeFraction : Text → Float × Text
  | '.' :: rest =>
    if atDigit rest then (fractionPart (rest.takeWhile Char.isDigit), rest.dropWhile Char.isDigit)
    else (0.0, '.' :: rest)
  | t => (0.0, t)

/-- The exponent at the beginning of the text, if an `e`, maybe a sign, and a
digit begin it. -/
def takeExponent (t : Text) : Option Float × Text :=
  match t with
  | c :: rest =>
    if c = 'e' ∨ c = 'E' then
      let (_, sign, digits) := takeSign rest
      if atDigit digits then
        (some (sign * wholePart (digits.takeWhile Char.isDigit)), digits.dropWhile Char.isDigit)
      else (none, t)
    else (none, t)
  | [] => (none, t)

/-- A double rounded to single precision. -/
def toSingle (x : Float) : Float := x.toFloat32.toFloat

/-- The hundredth of a percentage times a hundred, both in single precision. -/
def percentValue (x : Float) : Float := ((x / 100.0).toFloat32 * (100.0 : Float32)).toFloat

def takeNumeral (t : Text) : Numeral × Text :=
  let (signed, sign, t) := takeSign t
  let whole := wholePart (t.takeWhile Char.isDigit)
  let (fraction, t) := takeFraction (t.dropWhile Char.isDigit)
  let (exponent, t) := takeExponent t
  let unscaled := sign * (whole + fraction)
  let value := match exponent with
    | some e => unscaled * Float.pow 10.0 e
    | none => unscaled
  match t with
  | '%' :: rest => (⟨percentValue value, signed, true⟩, rest)
  | _ => (⟨toSingle value, signed, false⟩, t)

end StyleTypings.Css
