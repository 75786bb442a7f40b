import ScratchLegacy.Project

/-!
# Numbered assets

The legacy archive names its files `0.png`, `1.png`, `0.wav`, …: the assets of
each file extension are numbered from zero in the order in which the document
mentions them. An asset table has one group per extension, sorted by
extension, and the number of an asset is its place in its group.
-/

namespace ScratchLegacy.Legacy

/-- **Where the bytes of a file come from.** -/
inductive AssetSource where
  | costume (c : Costume)
  | sound (s : ScratchLegacy.Sound)
deriving Inhabited

namespace AssetSource

/-- The name of the costume or sound. -/
def name : AssetSource → String
  | costume c => c.name
  | sound s => s.name

/-- The bytes of the file. -/
def bytes : AssetSource → ByteArray
  | costume c => c.asset
  | sound s => s.asset

/-- The file extension. -/
def ext : AssetSource → String
  | costume c => c.ext
  | sound s => s.ext

end AssetSource

/-- **The assets of a project, grouped by extension.** -/
abbrev AssetTable := List (String × List AssetSource)

namespace AssetTable

/-- The assets of an extension. -/
def group (table : AssetTable) (ext : String) : List AssetSource :=
  (SlotMap.find? ext table).getD []

/-- A table with an asset added to its group. -/
def add (table : AssetTable) (source : AssetSource) : AssetTable :=
  SlotMap.insert source.ext (table.group source.ext ++ [source]) table

/-- **The files of a table**: names `<number>.<extension>` with the bytes. -/
def files (table : AssetTable) : List (String × ByteArray) :=
  table.flatMap fun (ext, sources) =>
    sources.zipIdx.map fun (source, number) =>
      (String.ofList (Nat.toDigits 10 number) ++ "." ++ ext, source.bytes)

/-- Adding an asset extends its own group by it and leaves every other group
alone. -/
theorem group_add (table : AssetTable) (source : AssetSource) (ext : String) :
    (table.add source).group ext
      = if source.ext = ext then table.group ext ++ [source] else table.group ext := by
  unfold add group
  rw [SlotMap.find?_insert]
  by_cases h : source.ext = ext <;> simp [h]

end AssetTable

/-- **A computation that numbers assets as it goes.** -/
abbrev Numbering (α : Type) := StateM AssetTable α

/-- The number of an asset, which is added to the table. -/
def Numbering.register (source : AssetSource) : Numbering Nat := fun table =>
  ((table.group source.ext).length, table.add source)

end ScratchLegacy.Legacy
