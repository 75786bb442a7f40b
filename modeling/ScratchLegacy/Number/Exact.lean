/-!
# The exact value of a double

A finite double is `± m · 2 ^ q` for a natural number `m` and an integer `q`.
Everything the project asks of a double beyond arithmetic – whether it is an
integer, which integer, how it is written – is a question about that exact
value, and is answered in natural-number arithmetic.
-/

namespace ScratchLegacy

namespace Number

/-- The first integer that unsigned 64-bit words cannot hold, `2 ^ 64`. -/
abbrev unsignedBound : Nat := 18446744073709551616

/-- The first integer that signed 64-bit words cannot hold, `2 ^ 63`. -/
abbrev signedBound : Nat := 9223372036854775808

/-- The bound below which doubles hold every integer, `2 ^ 53`. -/
abbrev exactBound : Nat := 9007199254740992

end Number

/-- **A finite binary value** `± significand · 2 ^ exponent`. -/
structure Exact where
  /-- Whether the sign bit is set; a zero has a sign too. -/
  negative : Bool
  /-- The significand, a whole number. -/
  significand : Nat
  /-- The power of two it is scaled by. -/
  exponent : Int
deriving DecidableEq, Inhabited

namespace Exact

/-- The exact value of a double, absent for an infinity and for NaN. -/
def ofFloat? (x : Float) : Option Exact :=
  match x.toModel.unpack with
  | .finite .positive m e _ => some ⟨false, m, e⟩
  | .finite .negative m e _ => some ⟨true, m, e⟩
  | .zero .positive => some ⟨false, 0, 0⟩
  | .zero .negative => some ⟨true, 0, 0⟩
  | _ => none

/-- The integer a binary value is equal to, if it is one. -/
def toInt? (v : Exact) : Option Int :=
  let magnitude? : Option Nat :=
    if 0 ≤ v.exponent then some (v.significand * Nat.pow 2 v.exponent.toNat)
    else
      let unit := Nat.pow 2 (-v.exponent).toNat
      if v.significand % unit = 0 then some (v.significand / unit) else none
  magnitude?.map (fun n => if v.negative then -(n : Int) else n)

end Exact

namespace Number

/-- Whether a double is neither infinite nor NaN. -/
def isFinite (x : Float) : Bool := (Exact.ofFloat? x).isSome

/-- The integer a double is equal to, if it is one. Both zeros are `0`. -/
def toInt? (x : Float) : Option Int := (Exact.ofFloat? x).bind Exact.toInt?

/-- The double nearest to a decimal `± mantissa · 10 ^ exponent`, infinite
when the decimal is beyond the largest finite double. -/
def ofDecimal (negative : Bool) (mantissa : Nat) (exponent : Int) : Float :=
  let magnitude := Float.ofScientific mantissa (exponent < 0) exponent.natAbs
  if negative then -magnitude else magnitude

/-- The double nearest to an integer. -/
def ofInt (n : Int) : Float := ofDecimal (n < 0) n.natAbs 0

end Number

end ScratchLegacy
