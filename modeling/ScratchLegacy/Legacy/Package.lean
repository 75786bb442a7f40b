import ScratchLegacy.Json.Writer
import ScratchLegacy.Legacy.Document

/-!
# Legacy packages

A legacy project is passed around as an archive, too: the document, then the
numbered assets. Packing one reports its progress.
-/

namespace ScratchLegacy

/-- **A report of progress**: this step, of so many. -/
structure Progress where
  step : Nat
  total : Nat
  label : String
deriving DecidableEq, Inhabited

namespace Legacy

/-- **A packed project**: the files of the archive in order, and the progress
reported on the way. -/
structure Package where
  files : List (String × ByteArray)
  progress : List Progress
deriving Inhabited

/-- The progress of packing a number of assets. -/
def packingProgress (count : Nat) : List Progress :=
  let label := "Packaging assets"
  if count = 0 then [⟨1, 1, label⟩]
  else (List.range count).map (fun i => ⟨i + 1, count, label⟩)

/-- **A project, packed.** -/
def pack (options : Options) (project : Project) : Package :=
  let (document, table) := encode options project
  let assets := table.files
  { files := ("project.json", document.toJson.compact.toUTF8) :: assets
    progress :=
      [⟨1, 1, "Encoding legacy project"⟩, ⟨1, 1, "Writing project.json"⟩]
        ++ packingProgress assets.length }

end Legacy

end ScratchLegacy
