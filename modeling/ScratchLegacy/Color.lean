import ScratchLegacy.Numeral

/-!
# Colors

A color is written `#rrggbb`, and stored in the legacy format as one number
`0xrrggbb`.
-/

namespace ScratchLegacy

/-- **A color**, eight bits per channel. -/
structure Color where
  red : UInt8
  green : UInt8
  blue : UInt8
deriving DecidableEq, Inhabited

namespace Color

/-- The value of one channel, written with two characters. -/
def channel? (high low : Char) : Option UInt8 :=
  (Numeral.unsigned? 16 256 [high, low]).map UInt8.ofNat

/-- The color that `#rrggbb` denotes. -/
def ofHex? (text : String) : Option Color :=
  match text.toList with
  | ['#', r₁, r₀, g₁, g₀, b₁, b₀] => do
    let red ← channel? r₁ r₀
    let green ← channel? g₁ g₀
    let blue ← channel? b₁ b₀
    pure ⟨red, green, blue⟩
  | _ => none

/-- The color as one number, red in the highest byte. -/
def packed (c : Color) : Nat :=
  c.red.toNat * 65536 + c.green.toNat * 256 + c.blue.toNat

/-- The packed number fits twenty-four bits. -/
theorem packed_lt (c : Color) : c.packed < 16777216 := by
  have hr := c.red.toNat_lt
  have hg := c.green.toNat_lt
  have hb := c.blue.toNat_lt
  unfold packed
  omega

end Color

end ScratchLegacy
