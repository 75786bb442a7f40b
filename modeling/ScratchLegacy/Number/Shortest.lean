import ScratchLegacy.Number.Exact

/-!
# The shortest decimal of a double

A double is written with the fewest digits that read back as the same double.
The reals that round to `m · 2 ^ q` form an interval around it, whose ends
belong to it exactly when `m` is even. On the decimal grid with `n`
significant digits only the two neighbours of the value can lie in that
interval, so the search tries `n = 1, 2, …, 17` and takes the first grid with
a neighbour inside; of two such neighbours it takes the nearer one, and on a
tie the even one.

`Decimal.text` fixes how the digits are laid out: positional notation with at
least one decimal when `1e-5 ≤ |v| < 1e16`, and otherwise an exponent that
always carries its sign.
-/

namespace ScratchLegacy

/-- **A decimal** `coefficient · 10 ^ exponent`. -/
structure Decimal where
  /-- The digits, read as one natural number. -/
  coefficient : Nat
  /-- The power of ten the last digit stands for. -/
  exponent : Int
deriving DecidableEq, Inhabited

namespace Decimal

/-- `a · 10 ^ e`, or its numerator when `e` is negative. -/
def scaleUp (a : Nat) (e : Int) : Nat := a * Nat.pow 10 e.toNat

/-- The number of decimal digits of a natural number, one for zero. -/
def digitCount (n : Nat) : Nat := (Nat.toDigits 10 n).length

/-- The position of the leading digit of `num / den`: the `k` with
`10 ^ k ≤ num / den < 10 ^ (k + 1)`. -/
def leadingExponent (num den : Nat) : Int :=
  if den ≤ num then digitCount (num / den) - 1
  else
    let d := digitCount (den / num)
    if den ≤ num * Nat.pow 10 (d - 1) then -((d : Int) - 1) else -(d : Int)

/-- **The reals that round to a double**, as a pair of bounds over a common
denominator; `closed` says whether the bounds themselves round to it. -/
structure Interval where
  /-- Four times the lower bound's numerator. -/
  low : Nat
  /-- Four times the value's numerator. -/
  mid : Nat
  /-- Four times the upper bound's numerator. -/
  high : Nat
  /-- Four times the common denominator. -/
  den : Nat
  /-- Whether the bounds belong to the interval. -/
  closed : Bool

/-- The least significand with all its bits, `2 ^ 52`. -/
def leastNormal : Nat := 4503599627370496

/-- The interval of `m · 2 ^ q`. Below a power of two the doubles are half as
far apart, except at the bottom of the range. -/
def Interval.of (m : Nat) (q : Int) : Interval :=
  let scale := Nat.pow 2 q.toNat
  let below := if m = leastNormal ∧ q ≠ -1074 then 1 else 2
  { low := (4 * m - below) * scale
    mid := 4 * m * scale
    high := (4 * m + 2) * scale
    den := 4 * Nat.pow 2 (-q).toNat
    closed := m % 2 = 0 }

/-- Whether a decimal lies in the interval. -/
def Interval.contains (i : Interval) (d : Decimal) : Bool :=
  let value := scaleUp d.coefficient d.exponent * i.den
  let unit := scaleUp 1 (-d.exponent)
  if i.closed then i.low * unit ≤ value && value ≤ i.high * unit
  else i.low * unit < value && value < i.high * unit

/-- The nearer of the two neighbours of the value on the grid of multiples of
`10 ^ g` that lie in the interval, if any does. -/
def Interval.onGrid (i : Interval) (g : Int) : Option Decimal :=
  let num := scaleUp i.mid (-g)
  let den := scaleUp i.den g
  let down : Decimal := ⟨num / den, g⟩
  let up : Decimal := ⟨num / den + 1, g⟩
  let rest := 2 * (num % den)
  let downNearer := rest < den || (rest = den && down.coefficient % 2 = 0)
  match i.contains down, i.contains up with
  | true, true => some (if downNearer then down else up)
  | true, false => some down
  | false, true => some up
  | false, false => none

/-- The first grid with a neighbour inside, from `tried` digits on. -/
def Interval.search (i : Interval) (top : Int) : Nat → Nat → Decimal
  | 0, tried => ⟨scaleUp i.mid (tried - top) / scaleUp i.den (top - tried), top - tried⟩
  | left + 1, tried =>
    match i.onGrid (top - tried) with
    | some d => d
    | none => i.search top left (tried + 1)

/-- A decimal without the zeros at the end of its coefficient. -/
def dropZeros : Nat → Decimal → Decimal
  | 0, d => d
  | fuel + 1, d =>
    if d.coefficient ≠ 0 ∧ d.coefficient % 10 = 0 then
      dropZeros fuel ⟨d.coefficient / 10, d.exponent + 1⟩
    else d

/-- **The shortest decimal** that reads back as `m · 2 ^ q`, for `0 < m`. -/
def shortest (m : Nat) (q : Int) : Decimal :=
  let i := Interval.of m q
  dropZeros 20 (i.search (leadingExponent i.mid i.den) 17 0)

/-- The digits of a decimal, laid out. -/
def text (d : Decimal) : String :=
  let digits := Nat.toDigits 10 d.coefficient
  let point : Int := d.exponent + digits.length
  let zeros (n : Int) : List Char := List.replicate n.toNat '0'
  if -5 < point ∧ point ≤ 16 then
    String.ofList <|
      if 0 ≤ d.exponent then digits ++ zeros d.exponent ++ ['.', '0']
      else if 0 < point then digits.take point.toNat ++ '.' :: digits.drop point.toNat
      else '0' :: '.' :: zeros (-point) ++ digits
  else
    let power := point - 1
    let sign := if power < 0 then '-' else '+'
    String.ofList <|
      digits.take 1 ++ (if digits.length = 1 then [] else '.' :: digits.drop 1)
        ++ 'e' :: sign :: Nat.toDigits 10 power.natAbs

end Decimal

namespace Number

/-- **The text of a finite double**, absent for an infinity and for NaN. -/
def text? (x : Float) : Option String :=
  (Exact.ofFloat? x).map fun v =>
    let magnitude :=
      if v.significand = 0 then "0.0"
      else (Decimal.shortest v.significand v.exponent).text
    if v.negative then "-" ++ magnitude else magnitude

end Number

end ScratchLegacy
