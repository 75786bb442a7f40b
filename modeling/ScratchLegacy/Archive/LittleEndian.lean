/-!
# Numbers in bytes

The numbers of an archive are written with the lowest byte first.
-/

namespace ScratchLegacy.Archive.LittleEndian

/-- The number in `width` bytes from a position on, absent when the bytes end
before. -/
def number? (data : ByteArray) (start : Nat) : Nat → Option Nat
  | 0 => some 0
  | width + 1 =>
    match data[start]?, number? data (start + 1) width with
    | some b, some rest => some (b.toNat + 256 * rest)
    | _, _ => none

/-- A number in `width` bytes. -/
def bytes : Nat → Nat → List UInt8
  | 0, _ => []
  | width + 1, n => n.toUInt8 :: bytes width (n / 256)

theorem length_bytes (width n : Nat) : (bytes width n).length = width := by
  induction width generalizing n with
  | zero => rfl
  | succ width ih => simp [bytes, ih]

end ScratchLegacy.Archive.LittleEndian
