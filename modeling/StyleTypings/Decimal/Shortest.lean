/-
Shortest decimals — the fewest digits that read back as a given double.

A finite double is `m · 2^q` for natural `m`.  The reals that round to it form an
interval around it, closed when `m` is even and open when it is odd.  For one,
two, up to seventeen digits the two neighbours of the double on that decimal
grid are tested in exact arithmetic; the first grid with a neighbour in the
interval wins, and of two the nearer one, the upper at a tie.
-/
import StyleTypings.Text.Basic

namespace StyleTypings

/-- The decimal `digits · 10^exponent`. -/
structure Decimal where
  digits : Nat
  exponent : Int
deriving DecidableEq, Repr

namespace Decimal

/-- How many decimal digits a number has; one for zero. -/
def length (n : Nat) : Nat := (Nat.toDigits 10 n).length

/-- The decimal without trailing zeros in its digits; `fuel` bounds their
number. -/
def trimmed : Nat → Decimal → Decimal
  | 0, d => d
  | fuel + 1, d =>
    if d.digits ≠ 0 ∧ d.digits % 10 = 0 then trimmed fuel ⟨d.digits / 10, d.exponent + 1⟩ else d

/-- A positive rational, kept as numerator and denominator. -/
structure Ratio where
  num : Nat
  den : Nat

/-- `m · 2^q` as a rational. -/
def Ratio.binary (m : Nat) (q : Int) : Ratio :=
  if 0 ≤ q then ⟨m * Nat.pow 2 q.toNat, 1⟩ else ⟨m, Nat.pow 2 (-q).toNat⟩

/-- `d · 10^k` as a rational. -/
def Ratio.decimal (d : Nat) (k : Int) : Ratio :=
  if 0 ≤ k then ⟨d * Nat.pow 10 k.toNat, 1⟩ else ⟨d, Nat.pow 10 (-k).toNat⟩

def Ratio.lt (a b : Ratio) : Bool := a.num * b.den < b.num * a.den

def Ratio.le (a b : Ratio) : Bool := a.num * b.den ≤ b.num * a.den

/-- The reals that round to one double. -/
structure Rounding where
  value : Ratio
  low : Ratio
  high : Ratio
  closed : Bool

/-- Whether a rational rounds to the double. -/
def Rounding.contains (r : Rounding) (x : Ratio) : Bool :=
  if r.closed then r.low.le x && x.le r.high else r.low.lt x && x.lt r.high

/-- The interval around `m · 2^q`.  Below a power of two the doubles are twice as
dense, so the lower half of the interval is half as long. -/
def Rounding.around (m : Nat) (q : Int) (atPower : Bool) : Rounding where
  value := .binary (4 * m) (q - 2)
  low := .binary (if atPower then 4 * m - 1 else 4 * m - 2) (q - 2)
  high := .binary (4 * m + 2) (q - 2)
  closed := m % 2 == 0

/-- The exponent of the leading decimal digit of a positive rational. -/
def Ratio.magnitude (x : Ratio) : Int :=
  if x.den ≤ x.num then (length (x.num / x.den) : Int) - 1
  else - (length (x.den / x.num) : Int)

/-- Whether `x` is at least as near to `high` as to `low`, for `low ≤ x ≤ high`. -/
def Ratio.upperHalf (x low high : Ratio) : Bool :=
  low.num * high.den * x.den + high.num * low.den * x.den ≤ 2 * x.num * low.den * high.den

/-- The neighbour of the double on the grid of `n` digits that reads back. -/
def onGrid (r : Rounding) (n : Nat) : Option Decimal :=
  let k : Int := r.value.magnitude - n + 1
  let grid := Ratio.decimal 1 k
  let d := r.value.num * grid.den / (r.value.den * grid.num)
  let low := Ratio.decimal d k
  let high := Ratio.decimal (d + 1) k
  match r.contains low, r.contains high with
  | true, true => some ⟨if r.value.upperHalf low high then d + 1 else d, k⟩
  | true, false => some ⟨d, k⟩
  | false, true => some ⟨d + 1, k⟩
  | false, false => none

/-- The first grid, from `n` digits on, that has such a neighbour. -/
def search (r : Rounding) : Nat → Nat → Decimal
  | 0, _ => ⟨r.value.num / r.value.den, 0⟩
  | fuel + 1, n => (onGrid r n).getD (search r fuel (n + 1))

/-- The shortest decimal of `m · 2^q`, for `m` positive. -/
def shortest (m : Nat) (q : Int) (atPower : Bool) : Decimal :=
  trimmed 17 (search (.around m q atPower) 17 1)

end Decimal

/-- A double taken apart. -/
inductive Double where
  | finite (negative : Bool) (m : Nat) (q : Int) (atPower : Bool)
  | infinite (negative : Bool)
  | nan
deriving DecidableEq, Repr

/-- The parts of a double, read off its bits: sign, eleven bits of exponent,
fifty-two of fraction. -/
def Double.ofFloat (x : Float) : Double :=
  let bits := x.toBits.toNat
  let negative := bits / Nat.pow 2 63 == 1
  let exponent : Nat := bits / Nat.pow 2 52 % Nat.pow 2 11
  let fraction : Nat := bits % Nat.pow 2 52
  if exponent = 2047 then if fraction = 0 then .infinite negative else .nan
  else if exponent = 0 then .finite negative fraction (-1074) false
  else
    .finite negative (Nat.pow 2 52 + fraction) ((exponent : Int) - 1075) (fraction == 0 && exponent != 1)

/-- Whether the sign bit is set, for zeros too. -/
def Double.isNegative : Double → Bool
  | .finite negative .. => negative
  | .infinite negative => negative
  | .nan => false

end StyleTypings
