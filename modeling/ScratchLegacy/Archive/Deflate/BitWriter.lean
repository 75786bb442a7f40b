/-!
# Writing bits

Bits are written into bytes from the lowest one on. `BitWriter` holds the
bytes that are full and the bits of the next one.
-/

namespace ScratchLegacy.Archive.Deflate

/-- **Bytes, and some bits of a byte behind them.** -/
structure BitWriter where
  bytes : ByteArray := ByteArray.empty
  /-- The bits behind the bytes, as a number. -/
  rest : Nat := 0
  /-- How many bits there are behind the bytes. -/
  count : Nat := 0
deriving Inhabited

namespace BitWriter

/-- Some bytes that are full moved out of the rest. -/
def drain : Nat → BitWriter → BitWriter
  | 0, w => w
  | n + 1, ⟨bytes, rest, count⟩ => drain n ⟨bytes.push rest.toUInt8, rest >>> 8, count - 8⟩

/-- The lowest `width` bits of a number written, the lowest first. -/
def put (w : BitWriter) (value width : Nat) : BitWriter :=
  let count := w.count + width
  drain (count / 8) ⟨w.bytes, w.rest ||| (value <<< w.count), count⟩

/-- Zero bits up to the next whole byte. -/
def pad (w : BitWriter) : BitWriter := if w.count = 0 then w else w.put 0 (8 - w.count)

/-- Bytes written behind whole bytes. -/
def append (w : BitWriter) (bytes : ByteArray) : BitWriter := { w with bytes := w.bytes ++ bytes }

theorem count_drain (n : Nat) (w : BitWriter) : (drain n w).count = w.count - 8 * n := by
  induction n generalizing w with
  | zero => rfl
  | succ n ih =>
    obtain ⟨bytes, rest, count⟩ := w
    rw [drain, ih]
    show count - 8 - 8 * n = count - 8 * (n + 1)
    omega

/-- Less than a byte stays behind the bytes. -/
theorem count_put_lt (w : BitWriter) (value width : Nat) : (w.put value width).count < 8 := by
  rw [put, count_drain]
  show w.count + width - 8 * ((w.count + width) / 8) < 8
  omega

end BitWriter

end ScratchLegacy.Archive.Deflate
