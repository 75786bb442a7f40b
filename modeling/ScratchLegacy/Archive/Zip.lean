import ScratchLegacy.Archive.Deflate
import ScratchLegacy.Archive.Directory
import ScratchLegacy.Archive.Inflate
import ScratchLegacy.Json.Basic

/-!
# Zip archives

An archive is a list of named entries. In its bytes, the content of each
entry stands behind a header of its own; a directory behind all of them tells
where each one is, and a record at the very end tells where the directory is.

`Zip.read?` reads the directory and, by it, the entries. The content of an
entry is read on its own: a damaged entry does not keep the others from being
read. A name that occurs twice stands for its last entry, at the place of its
first.

`Zip.write` stores or deflates the entries, and marks each as a file or, where
its name ends in a slash, as a directory.
-/

namespace ScratchLegacy.Archive

/-- **How the content of an entry is packed.** -/
inductive Packing where
  | stored
  | deflated
deriving DecidableEq, Inhabited

namespace Packing

/-- The number of a packing. -/
def code : Packing → Nat
  | stored => 0
  | deflated => 8

/-- The packing with a number. -/
def ofCode? : Nat → Option Packing
  | 0 => some stored
  | 8 => some deflated
  | _ => none

theorem ofCode?_code (p : Packing) : ofCode? p.code = some p := by
  cases p <;> rfl

/-- Content as it is packed. -/
def pack (content : ByteArray) : Packing → ByteArray
  | stored => content
  | deflated => Deflate.deflate content

/-- The content that packed bytes stand for, absent when they are damaged. -/
def unpack? (packed : ByteArray) : Packing → Option ByteArray
  | stored => some packed
  | deflated => Inflate.inflate? packed

end Packing

/-- **Why an entry has no content.** -/
inductive EntryFault where
  /-- It is encrypted, compressed in an unknown way, or not where the
  directory says. -/
  | unsupported
  /-- Its content does not agree with its checksum, or cannot be inflated. -/
  | damaged
deriving DecidableEq, Inhabited

/-- **An entry of an archive.** -/
structure Entry where
  name : String
  content : Except EntryFault ByteArray
deriving Inhabited

namespace Zip

/-! ## Reading -/

/-- The signature of the header of an entry. -/
def localSignature : Nat := 0x04034b50

/-- The bytes that an entry has in the archive. Where the archive ends before
they do, they are those that are there. -/
def packed? (data : ByteArray) (record : DirectoryRecord) : Option ByteArray := do
  let nameSize ← LittleEndian.number? data (record.offset + 26) 2
  let extraSize ← LittleEndian.number? data (record.offset + 28) 2
  if hasSignature data record.offset localSignature then
    let start := record.offset + 30 + nameSize + extraSize
    pure (data.extract start (min data.size (start + record.compressedSize)))
  else none

/-- The content of an entry, which has to agree with the checksum. -/
def content (data : ByteArray) (record : DirectoryRecord) : Except EntryFault ByteArray :=
  if record.encrypted ∨ record.aes then .error .unsupported
  else
    match packed? data record, Packing.ofCode? record.method with
    | some packed, some packing =>
      match packing.unpack? packed with
      | none => .error .damaged
      | some bytes => if Crc32.checksum bytes = record.crc then .ok bytes else .error .damaged
    | _, _ => .error .unsupported

/-- **The entries of an archive**, absent when the bytes are no archive. -/
def read? (data : ByteArray) : Option (List Entry) :=
  (Directory.read? data).map fun records =>
    (Entries.ofWritings (records.map (fun r => (r.name, r)))).map
      (fun (name, record) => ⟨name, content data record⟩)

/-! ## Writing -/

/-- Fields of a record, each a width and a number. -/
def fields (values : List (Nat × Nat)) : ByteArray :=
  ⟨(values.flatMap (fun v => LittleEndian.bytes v.1 v.2)).toArray⟩

/-- Whether an entry of a name is a directory. -/
def isDirectory (name : String) : Bool := name.toList.getLast? = some '/'

/-- The system that an entry is written for, one with file modes. -/
def system : Nat := 3

/-- The mode of a file or directory that everyone may read and its owner may
write. -/
def mode (name : String) : Nat := if isDirectory name then 0x41ed else 0x81a4

/-- **An entry that is packed**, ready to be written. -/
structure PackedEntry where
  name : String
  packing : Packing
  crc : UInt32
  size : Nat
  bytes : ByteArray
deriving Inhabited

namespace PackedEntry

/-- An entry with its content packed. A directory has none and is stored. -/
def of (packing : Packing) (name : String) (content : ByteArray) : PackedEntry :=
  let packing := if isDirectory name then .stored else packing
  let content := if isDirectory name then ByteArray.empty else content
  { name := name
    packing := packing
    crc := Crc32.checksum content
    size := content.size
    bytes := packing.pack content }

/-- The version of the format that an entry needs, ten times as large. -/
def version (e : PackedEntry) : Nat :=
  if isDirectory e.name ∨ e.packing = .deflated then 20 else 10

/-- The flags of an entry: a name outside ASCII is marked as Unicode. -/
def flags (e : PackedEntry) : Nat :=
  if e.name.toList.all (fun c => c.toNat < 0x80) then 0 else 0x800

/-- What the header and the directory record of an entry have in common: the
version, the flags, the packing, the time and the date, the checksum, the two
sizes and the length of the name. -/
def commonFields (e : PackedEntry) : List (Nat × Nat) :=
  [(2, e.version), (2, e.flags), (2, e.packing.code), (2, 0), (2, 0x21), (4, e.crc.toNat),
   (4, e.bytes.size), (4, e.size), (2, e.name.utf8ByteSize)]

/-- The bytes of an entry with its header. -/
def entryBytes (e : PackedEntry) : ByteArray :=
  fields ((4, localSignature) :: e.commonFields ++ [(2, 0)]) ++ e.name.toUTF8 ++ e.bytes

/-- The directory record of an entry whose header is at an offset. -/
def directoryBytes (e : PackedEntry) (offset : Nat) : ByteArray :=
  fields ((4, DirectoryRecord.signature) :: (1, e.version) :: (1, system) :: e.commonFields
    ++ [(2, 0), (2, 0), (2, 0), (2, 0), (2, 0), (2, mode e.name), (4, offset)])
    ++ e.name.toUTF8

end PackedEntry

/-- **The bytes of an archive** of these entries, packed in some way. -/
def write (packing : Packing) (entries : List (String × ByteArray)) : ByteArray :=
  let (body, directory) :=
    entries.foldl
      (fun (body, directory) (name, content) =>
        let entry := PackedEntry.of packing name content
        (body ++ entry.entryBytes, directory ++ entry.directoryBytes body.size))
      (ByteArray.empty, ByteArray.empty)
  body ++ directory ++
    fields [(4, EndRecord.signature), (2, 0), (2, 0), (2, entries.length), (2, entries.length),
      (4, directory.size), (4, body.size), (2, 0)]

end Zip

end ScratchLegacy.Archive
