import ScratchLegacy.Archive.Zip
import ScratchLegacy.Failure
import ScratchLegacy.Json.Reader

/-!
# Bundles

A project is passed around as an archive: the document under the name
`project.json`, and beside it the assets, each under its digest and
extension. `Bundle.read` opens one, and `Bundle.fetcher` answers requests
from it.
-/

namespace ScratchLegacy

/-- **An opened archive of a project.** -/
structure Bundle where
  document : Json
  /-- Every other file, by name. -/
  assets : List (String × ByteArray)
deriving Inhabited

namespace Bundle

/-- The name of the document in an archive. -/
def documentName : String := "project.json"

/-- Whether an entry holds an asset: it is neither the document nor a
directory. -/
def isAsset (name : String) : Bool := name ≠ documentName && !Archive.Zip.isDirectory name

/-- The document among the entries of an archive. -/
def readDocument (source : String) (entries : List Archive.Entry) : Except Failure Json :=
  match (entries.find? (fun e => e.name = documentName)).map Archive.Entry.content with
  | none | some (.error .unsupported) => .error (.noDocument source)
  | some (.error .damaged) => .error (.damagedDocument source)
  | some (.ok bytes) =>
    match String.fromUTF8? bytes with
    | none => .error (.damagedDocument source)
    | some text =>
      match Json.read? text with
      | none => .error (.malformedDocument source)
      | some document => .ok document

/-- The assets among the entries of an archive. -/
def readAssets (source : String) :
    List Archive.Entry → Except Failure (List (String × ByteArray))
  | [] => .ok []
  | entry :: rest =>
    match entry.content with
    | .error .unsupported => .error .unsupportedEntry
    | .error .damaged =>
      if isAsset entry.name then .error (.damagedEntry entry.name source)
      else readAssets source rest
    | .ok bytes =>
      (readAssets source rest).map fun assets =>
        if isAsset entry.name then (entry.name, bytes) :: assets else assets

/-- The bundle that the entries of an archive make. -/
def ofEntries (source : String) (entries : List Archive.Entry) : Except Failure Bundle := do
  let document ← readDocument source entries
  let assets ← readAssets source entries
  pure ⟨document, assets⟩

/-- **The bundle that bytes hold**; `source` is what they are called in a
failure. -/
def read (source : String) (bytes : ByteArray) : Except Failure Bundle :=
  match Archive.Zip.read? bytes with
  | none => .error (.notAnArchive source)
  | some entries => ofEntries source entries

/-- The bytes of a file. -/
def asset? (b : Bundle) (name : String) : Option ByteArray := Entries.find? name b.assets

/-- **The assets of a bundle as answers to requests.** -/
def fetcher (b : Bundle) : Fetcher := fun request =>
  match b.asset? request.fileName with
  | some bytes => .ok bytes
  | none => .error (.notInArchive request)

/-- The project in a bundle. -/
def project (b : Bundle) : Except DocumentError Project :=
  Project.ofDocument b.fetcher b.document

end Bundle

end ScratchLegacy
