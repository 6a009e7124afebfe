/-
Positional decimals — doubles written with digits and a point only.

Computed numbers in selectors have no exponent, however large or small they are,
and no point when they are whole: `0.5`, `12`, `1000000000000000000000`.
Messages about a settings file show a number as a program would write it: always
with a point, and with an exponent once the point is far from the digits.
-/
import StyleTypings.Decimal.Shortest

namespace StyleTypings

namespace Decimal

/-- A decimal with digits and a point only. -/
def positional (d : Decimal) : Text :=
  let digits := Text.ofNat d.digits
  if 0 ≤ d.exponent then digits ++ List.replicate d.exponent.toNat '0'
  else
    let places := (-d.exponent).toNat
    if places < digits.length then
      digits.take (digits.length - places) ++ ['.'] ++ digits.drop (digits.length - places)
    else ['0', '.'] ++ List.replicate (places - digits.length) '0' ++ digits

/-- An integer in decimal digits. -/
def ofInt (n : Int) : Text := if n < 0 then '-' :: Text.ofNat n.natAbs else Text.ofNat n.natAbs

/-- A decimal as programs write it.  The point stands at most sixteen places to the
right of the first digit and at most five to the left of it; beyond that there is
an exponent. -/
def scientific (d : Decimal) : Text :=
  let digits := Text.ofNat d.digits
  let point : Int := digits.length + d.exponent
  if 0 ≤ d.exponent && point ≤ 16 then d.positional ++ ['.', '0']
  else if -5 < point && point ≤ 16 then d.positional
  else
    let mantissa := match digits with
      | [] => []
      | [c] => [c]
      | c :: rest => c :: '.' :: rest
    mantissa ++ ['e'] ++ ofInt (point - 1)

end Decimal

/-- A double without exponent. -/
def Double.positional : Double → Text
  | .finite negative m q atPower =>
    (if negative then ['-'] else []) ++
      (if m = 0 then ['0'] else (Decimal.shortest m q atPower).positional)
  | .infinite negative => (if negative then ['-'] else []) ++ ("inf" : Text)
  | .nan => ("NaN" : Text)

/-- A double as programs write it. -/
def Double.scientific : Double → Text
  | .finite negative m q atPower =>
    (if negative then ['-'] else []) ++
      (if m = 0 then ['0', '.', '0'] else (Decimal.shortest m q atPower).scientific)
  | .infinite negative => (if negative then ['-'] else []) ++ ("inf" : Text)
  | .nan => ("NaN" : Text)

end StyleTypings
