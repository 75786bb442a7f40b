import ScratchLegacy.Archive.Crc32
import ScratchLegacy.Archive.DirectoryRecord

/-!
# Extra fields

Behind the name in a directory record there may be extra fields, each a kind,
a size and as many bytes. Some of them change the record: sizes that do not
fit into four bytes, a name or a comment in Unicode, an encryption. The
others are only looked at (`ExtraField.timestamps`, `ExtraField.fileTimes`)
or left out.

`ExtraField.applyAll?` applies them to a record. Reading stops without harm
where the bytes end within a field, and what was read before stands; a field
that contradicts itself makes the record invalid.
-/

namespace ScratchLegacy.Archive.ExtraField

/-- **Why the reading of extra fields ends early.** -/
inductive Stop where
  /-- The bytes end within a field. -/
  | cutShort
  /-- A field contradicts itself. -/
  | invalid
deriving DecidableEq, Inhabited

/-- **How far the extra fields have been read.** -/
structure Progress where
  extra : ByteArray
  position : Nat
  record : DirectoryRecord
deriving Inhabited

/-- **A step of the reading**; what it did to the record stays when it stops. -/
abbrev Reading := ExceptT Stop (StateM Progress)

/-- The next number. -/
def number (width : Nat) : Reading Nat := do
  let p ← get
  match LittleEndian.number? p.extra p.position width with
  | none => throw .cutShort
  | some n =>
    set { p with position := p.position + width }
    pure n

/-- The next bytes. -/
def bytes (size : Nat) : Reading ByteArray := do
  let p ← get
  if p.extra.size < p.position + size then throw .cutShort
  else
    set { p with position := p.position + size }
    pure (p.extra.extract p.position (p.position + size))

/-- The next bytes, left out. -/
def skip (size : Nat) : Reading Unit := do
  let _ ← bytes size

/-- A field is invalid unless a condition holds. -/
def require (condition : Bool) : Reading Unit :=
  if condition then pure () else throw .invalid

/-- A change of the record. -/
def change (f : DirectoryRecord → DirectoryRecord) : Reading Unit :=
  modify fun p => { p with record := f p.record }

/-! ## The kinds of fields -/

/-- What stands in a record for a number that does not fit. -/
def unfit : Nat := 0xffffffff

/-- A number in eight bytes. It is there if the field has all of them, or if
the record has no fitting one. -/
def wideNumber (size : Nat) (old : DirectoryRecord → Nat)
    (put : Nat → DirectoryRecord → DirectoryRecord) : Reading Unit := do
  let p ← get
  if 24 ≤ size ∨ old p.record = unfit then
    let n ← number 8
    change (put n)

/-- Sizes and an offset that do not fit into four bytes. -/
def wideNumbers (size : Nat) : Reading Unit := do
  let start ← get
  wideNumber size DirectoryRecord.size (fun n r => { r with size := n })
  wideNumber size DirectoryRecord.compressedSize (fun n r => { r with compressedSize := n })
  wideNumber size DirectoryRecord.offset (fun n r => { r with offset := n })
  let p ← get
  let read := p.position - start.position
  require (read ≤ size)
  skip (size - read)

/-- The times of a file, to the tenth of a microsecond: a single attribute of
three numbers. -/
def fileTimes (size : Nat) : Reading Unit := do
  require (size = 32)
  skip 4
  let tag ← number 2
  require (tag = 1)
  let tagSize ← number 2
  require (tagSize = 24)
  skip 24

/-- The times of a file, to the second: those of three whose flags are set, or
only the first. -/
def timestamps (size : Nat) : Reading Unit := do
  let flags ← number 1
  require (flags < 8)
  let announced := (List.range 3).countP flags.testBit
  require (size = 5 ∨ size = 1 + 4 * announced)
  skip (size - 1)

/-- An encryption with AES, with the method of the content below it. -/
def encryption (size : Nat) : Reading Unit := do
  require (size = 7)
  let version ← number 2
  let vendor ← number 2
  let strength ← number 1
  let method ← number 2
  require (vendor = 0x4541)
  require (version = 1 ∨ version = 2)
  require (strength = 1 ∨ strength = 2 ∨ strength = 3)
  change (fun r => { r with aes := true, method := method })

/-- A text in Unicode that stands for another one, which its checksum has to
agree with. -/
def unicodeText (size : Nat) (old : DirectoryRecord → ByteArray) :
    Reading (ByteArray × String) := do
  skip 1
  let crc ← number 4
  require (5 ≤ size)
  let content ← bytes (size - 5)
  let p ← get
  require (Crc32.checksum (old p.record) = crc.toUInt32)
  match String.fromUTF8? content with
  | none => throw .invalid
  | some text => pure (content, text)

/-- A name in Unicode. -/
def unicodeName (size : Nat) : Reading Unit := do
  let (content, text) ← unicodeText size DirectoryRecord.nameBytes
  change (fun r => { r with nameBytes := content, name := text })

/-- A comment in Unicode. -/
def unicodeComment (size : Nat) : Reading Unit := do
  let (_, text) ← unicodeText size (fun r => r.comment.toUTF8)
  change (fun r => { r with comment := text })

/-- A field of a kind and a size. -/
def fieldOf (kind size : Nat) : Reading Unit :=
  match kind with
  | 0x0001 => wideNumbers size
  | 0x000a => fileTimes size
  | 0x5455 => timestamps size
  | 0x6375 => unicodeComment size
  | 0x7075 => unicodeName size
  | 0x9901 => encryption size
  | _ => skip size

/-- The fields up to the end of the bytes. Each takes at least four of them,
so their number bounds the number of fields. -/
def fields : Nat → Reading Unit
  | 0 => pure ()
  | fuel + 1 => do
    let p ← get
    if p.position < p.extra.size then
      let kind ← number 2
      let size ← number 2
      fieldOf kind size
      fields fuel

/-- **A record with its extra fields applied**, absent when one of them is
invalid. -/
def applyAll? (extra : ByteArray) (record : DirectoryRecord) : Option DirectoryRecord :=
  match (fields extra.size).run.run ⟨extra, 0, record⟩ with
  | (.error .invalid, _) => none
  | (_, p) => some p.record

end ScratchLegacy.Archive.ExtraField
