import ScratchLegacy.Archive.CodePage
import ScratchLegacy.Archive.LittleEndian
import ScratchLegacy.Text.Utf8

/-!
# Directory records

The directory of an archive has a record for each entry. A record is 46 bytes
of numbers, followed by the name of the entry, extra fields and a comment.
`DirectoryRecord.read?` reads one; what the extra fields say is not part of
it yet.
-/

namespace ScratchLegacy.Archive

/-- **A directory record**: what the directory tells about an entry. -/
structure DirectoryRecord where
  name : String
  /-- The name as it is written. -/
  nameBytes : ByteArray
  comment : String
  encrypted : Bool
  /-- Whether an extra field says that the content is encrypted with AES. -/
  aes : Bool
  method : Nat
  crc : UInt32
  /-- The size of the content in the archive. -/
  compressedSize : Nat
  /-- The size of the content. -/
  size : Nat
  /-- Where the header of the entry is. -/
  offset : Nat
deriving Inhabited

/-- Whether four bytes are the signature of a record. -/
def hasSignature (data : ByteArray) (start signature : Nat) : Bool :=
  LittleEndian.number? data start 4 = some signature

namespace DirectoryRecord

/-- The signature of a directory record. -/
def signature : Nat := 0x02014b50

/-- The number of bytes before the name. -/
def fixedSize : Nat := 46

/-- The text that bytes denote: Unicode if they are marked so, and else a text
in the old code page. -/
def text (unicode : Bool) (bytes : ByteArray) : String :=
  if unicode then Text.Utf8.decode bytes else CodePage.decode bytes

/-- **The record at a position**, its extra fields, and the position behind
it. -/
def read? (data : ByteArray) (start : Nat) : Option (DirectoryRecord × ByteArray × Nat) := do
  if ¬ hasSignature data start signature then none
  else
    let flags ← LittleEndian.number? data (start + 8) 2
    let method ← LittleEndian.number? data (start + 10) 2
    let crc ← LittleEndian.number? data (start + 16) 4
    let compressedSize ← LittleEndian.number? data (start + 20) 4
    let size ← LittleEndian.number? data (start + 24) 4
    let nameSize ← LittleEndian.number? data (start + 28) 2
    let extraSize ← LittleEndian.number? data (start + 30) 2
    let commentSize ← LittleEndian.number? data (start + 32) 2
    let offset ← LittleEndian.number? data (start + 42) 4
    let nameStart := start + fixedSize
    let extraStart := nameStart + nameSize
    let commentStart := extraStart + extraSize
    let next := commentStart + commentSize
    if data.size < next then none
    else
      let nameBytes := data.extract nameStart extraStart
      let unicode := flags.testBit 11
      pure
        ({ name := text unicode nameBytes
           nameBytes := nameBytes
           comment := text unicode (data.extract commentStart next)
           encrypted := flags.testBit 0
           aes := false
           method := method
           crc := crc.toUInt32
           compressedSize := compressedSize
           size := size
           offset := offset }, data.extract extraStart commentStart, next)

end DirectoryRecord

end ScratchLegacy.Archive
