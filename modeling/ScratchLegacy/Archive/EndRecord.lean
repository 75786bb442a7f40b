import ScratchLegacy.Archive.DirectoryRecord

/-!
# End records

At the end of an archive a record tells where the directory is. An archive
that is too large for its numbers has a second, wide record before it, and
between the two a locator that tells where the wide one is.

Other bytes may precede an archive, so its offsets may be too small. How much
too small is seen from the first directory record, or from the wide end
record, found at or behind the place where it should be
(`EndRecord.plainLocation?`, `EndRecord.wideLocation?`). Whatever is wrong
with an end record, it then is none, and another one may stand before it.
-/

namespace ScratchLegacy.Archive

/-- **Where a directory is.** -/
structure DirectoryLocation where
  /-- How far the archive begins behind the beginning of the bytes. -/
  shift : Nat
  /-- Where the first record is. -/
  start : Nat
  /-- How many records there are. -/
  count : Nat
deriving DecidableEq, Inhabited

/-- **An end record.** -/
structure EndRecord where
  disk : Nat
  directoryDisk : Nat
  /-- How many directory records there are on this disk. -/
  count : Nat
  /-- How many directory records there are. -/
  total : Nat
  /-- The offset of the directory. -/
  offset : Nat
deriving DecidableEq, Inhabited

/-- **A locator** of a wide end record. -/
structure EndLocator where
  directoryDisk : Nat
  /-- The offset of the wide end record. -/
  offset : Nat
  disks : Nat
deriving DecidableEq, Inhabited

/-- The first value that one of some consecutive positions has. -/
def firstFrom? {α : Type} (f : Nat → Option α) : Nat → Nat → Option α
  | 0, _ => none
  | count + 1, start =>
    match f start with
    | some a => some a
    | none => firstFrom? f count (start + 1)

namespace EndLocator

/-- The signature of a locator. -/
def signature : Nat := 0x07064b50

/-- The number of bytes of a locator. -/
def size : Nat := 20

/-- The locator at a position. -/
def read? (data : ByteArray) (position : Nat) : Option EndLocator := do
  if ¬ hasSignature data position signature then none
  else
    let directoryDisk ← LittleEndian.number? data (position + 4) 4
    let offset ← LittleEndian.number? data (position + 8) 8
    let disks ← LittleEndian.number? data (position + 16) 4
    pure { directoryDisk := directoryDisk, offset := offset, disks := disks }

/-- The locator that ends at a position. -/
def before? (data : ByteArray) (position : Nat) : Option EndLocator :=
  if position < size then none else read? data (position - size)

end EndLocator

namespace EndRecord

/-- The signature of an end record. -/
def signature : Nat := 0x06054b50

/-- The number of bytes before the comment. -/
def fixedSize : Nat := 22

/-- The signature of a wide end record. -/
def wideSignature : Nat := 0x06064b50

/-- The end record at a position. Its comment has to be there as well. -/
def read? (data : ByteArray) (position : Nat) : Option EndRecord := do
  if ¬ hasSignature data position signature then none
  else
    let disk ← LittleEndian.number? data (position + 4) 2
    let directoryDisk ← LittleEndian.number? data (position + 6) 2
    let count ← LittleEndian.number? data (position + 8) 2
    let total ← LittleEndian.number? data (position + 10) 2
    let offset ← LittleEndian.number? data (position + 16) 4
    let commentSize ← LittleEndian.number? data (position + 20) 2
    if data.size < position + fixedSize + commentSize then none
    else
      pure
        { disk := disk, directoryDisk := directoryDisk, count := count, total := total
          offset := offset }

/-- Whether a number of a record may have been too large for it. -/
def mayBeWide (e : EndRecord) : Bool := e.total = 0xffff ∨ e.offset = 0xffffffff

/-- The wide end record at a position. It has to end where its locator is and
to agree with it, and there has to be room for the directory before it. A
record that claims more than it can be trusted for is none. -/
def wideRead? (data : ByteArray) (locator : EndLocator) (locatorPosition position : Nat) :
    Option EndRecord := do
  if ¬ hasSignature data position wideSignature then none
  else
    let size ← LittleEndian.number? data (position + 4) 8
    let disk ← LittleEndian.number? data (position + 16) 4
    let directoryDisk ← LittleEndian.number? data (position + 20) 4
    let count ← LittleEndian.number? data (position + 24) 8
    let total ← LittleEndian.number? data (position + 32) 8
    let offset ← LittleEndian.number? data (position + 48) 8
    if 44 ≤ size ∧ position + 12 + size = locatorPosition
        ∧ directoryDisk = locator.directoryDisk
        ∧ offset + DirectoryRecord.fixedSize * total ≤ position then
      pure
        { disk := disk, directoryDisk := directoryDisk, count := count, total := total
          offset := offset }
    else none

/-- Whether the version that a wide end record asks for is older than the one
it was written by, or the same. -/
def versionAgrees (data : ByteArray) (position : Nat) : Bool :=
  match LittleEndian.number? data (position + 12) 2, LittleEndian.number? data (position + 14) 2 with
  | some writtenBy, some needed => needed ≤ writtenBy
  | _, _ => false

/-- The location that an end record without a wide one tells. An archive
without entries needs no directory. -/
def plainLocation? (data : ByteArray) (position : Nat) (e : EndRecord) :
    Option DirectoryLocation :=
  if e.disk ≠ e.directoryDisk then none
  else if e.total = 0 then
    let shift := position - e.offset
    some ⟨shift, e.offset + shift, e.count⟩
  else if position ≤ e.offset then none
  else
    let found (p : Nat) := if hasSignature data p DirectoryRecord.signature then some p else none
    (firstFrom? found (position - e.offset) e.offset).map
      (fun start => ⟨start - e.offset, start, e.count⟩)

/-- The location that a wide end record tells. -/
def wideLocation? (data : ByteArray) (locatorPosition : Nat) (locator : EndLocator) :
    Option DirectoryLocation := do
  if locatorPosition ≤ locator.offset ∨ 1 < locator.disks then none
  else
    let found (p : Nat) := (wideRead? data locator locatorPosition p).map (fun e => (p, e))
    let (position, e) ←
      firstFrom? found (locatorPosition - locator.offset) locator.offset
    let shift := position - locator.offset
    if e.total < e.count ∨ e.disk ≠ e.directoryDisk ∨ ¬ versionAgrees data position then none
    else some ⟨shift, e.offset + shift, e.total⟩

/-- **The location that the end record at a position tells**, absent when
there is no end record or no directory for it. -/
def location? (data : ByteArray) (position : Nat) : Option DirectoryLocation := do
  let e ← read? data position
  match if e.mayBeWide then EndLocator.before? data position else none with
  | some locator => wideLocation? data (position - EndLocator.size) locator
  | none => plainLocation? data position e

end EndRecord

end ScratchLegacy.Archive
