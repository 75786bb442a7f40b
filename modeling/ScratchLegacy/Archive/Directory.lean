import ScratchLegacy.Archive.EndRecord
import ScratchLegacy.Archive.ExtraField

/-!
# The directory of an archive

`Directory.read?` looks for an end record from the back, so that a comment
may follow it, and reads the directory that it tells of. Where one of the
records is invalid, the end record is passed over and the search goes on
before it.
-/

namespace ScratchLegacy.Archive.Directory

/-- The method that stands for an encryption told by an extra field. -/
def aesMethod : Nat := 99

/-- A record at a position with its extra fields applied, and the position
behind it. Its entry has to begin before the directory. -/
def record? (data : ByteArray) (location : DirectoryLocation) (start : Nat) :
    Option (DirectoryRecord × Nat) := do
  let (plain, extra, next) ← DirectoryRecord.read? data start
  let record ← ExtraField.applyAll? extra plain
  let offset := record.offset + location.shift
  if (record.method = aesMethod ∧ ¬ record.aes) ∨ location.start ≤ offset then none
  else pure ({ record with offset := offset }, next)

/-- The records from a position on. -/
def records? (data : ByteArray) (location : DirectoryLocation) :
    Nat → Nat → Option (List DirectoryRecord)
  | 0, _ => some []
  | count + 1, start => do
    let (record, next) ← record? data location start
    let rest ← records? data location count next
    pure (record :: rest)

/-- The directory that the end record at a position tells of. -/
def readAt? (data : ByteArray) (position : Nat) : Option (List DirectoryRecord) := do
  let location ← EndRecord.location? data position
  records? data location location.count location.start

/-- The directory of the last end record before a position that has one. -/
def readBefore? (data : ByteArray) : Nat → Option (List DirectoryRecord)
  | 0 => none
  | position + 1 =>
    match readAt? data position with
    | some records => some records
    | none => readBefore? data position

/-- **The directory of an archive**, absent when the bytes are none. -/
def read? (data : ByteArray) : Option (List DirectoryRecord) := readBefore? data data.size

end ScratchLegacy.Archive.Directory
