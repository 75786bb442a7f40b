/-!
# CRC-32

The checksum of an archive entry: the remainder of its bytes, lowest bit
first, modulo the polynomial `0xedb88320`, with the register inverted at the
beginning and at the end.
-/

namespace ScratchLegacy.Archive.Crc32

/-- One bit of the division. -/
def shift (c : UInt32) : UInt32 :=
  if c &&& 1 = 1 then (c >>> 1) ^^^ 0xedb88320 else c >>> 1

/-- The remainder that a low byte leaves. -/
def tableEntry (byte : UInt32) : UInt32 :=
  shift (shift (shift (shift (shift (shift (shift (shift byte)))))))

/-- The remainders of the 256 bytes. -/
def table : Array UInt32 := (Array.range 256).map (fun n => tableEntry n.toUInt32)

/-- The register after one more byte. -/
def step (table : Array UInt32) (c : UInt32) (byte : UInt8) : UInt32 :=
  table.getD ((c ^^^ byte.toUInt32) &&& 0xff).toNat 0 ^^^ (c >>> 8)

/-- **The checksum of bytes.** -/
def checksum (bytes : ByteArray) : UInt32 :=
  let table := table
  bytes.foldl (step table) 0xffffffff ^^^ 0xffffffff

end ScratchLegacy.Archive.Crc32
