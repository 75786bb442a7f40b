import ScratchLegacy.Archive.Md5
import ScratchLegacy.Bundle
import ScratchLegacy.CommandLine.Arguments
import ScratchLegacy.CommandLine.ProgressBar
import ScratchLegacy.Disk
import ScratchLegacy.ProjectJson

/-!
# Runs

A run reads the project, writes the files that are asked for – the project as
it stands in memory, the legacy document, the archive – and ends with the
first failure. Every stage is reported before it begins; packing the archive
reports its own steps as well, counted on from the stages before it.
-/

namespace ScratchLegacy.CommandLine

/-- How many stages a run has. -/
def Arguments.stageCount (a : Arguments) : Nat :=
  2 + a.emitIr.toList.length + a.emitJson.toList.length + a.archivePath?.toList.length

section

variable {m : Type → Type} [Monad m] [Disk m]

/-- **A part of a run**: effects, and an end with a failure. -/
abbrev RunT (m : Type → Type) := ExceptT Failure m

/-- Reports a step. -/
def announce (p : Progress) : RunT m Unit := (Disk.report (progressLine p) : m Unit)

/-- A result that is present, or else a failure. -/
def required {α : Type} (failure : Failure) (result : m (Option α)) : RunT m α := do
  match ← result with
  | some a => pure a
  | none => throw failure

/-- An effect that has to work. -/
def succeeding (failure : Failure) (effect : m Bool) : RunT m Unit := do
  if ← effect then pure () else throw failure

/-- Writes a file. -/
def writeFile (path : String) (bytes : ByteArray) : RunT m Unit :=
  succeeding (.cannotWrite path) (Disk.write path bytes)

/-- Reads the project of a file; `full` is its full path. -/
def readProject (path full : String) : RunT m Project := do
  let bytes ← required (.cannotOpen full) (Disk.read? path)
  let bundle ← ExceptT.mk (pure (Bundle.read full bytes))
  ExceptT.mk (pure (bundle.project.mapError (Failure.documentIn full)))

/-- The costume that an image file makes: it is named by the digest of its
bytes, and is a PNG image where its name does not say otherwise. -/
def penCostume (path : String) (image : ByteArray) : Costume :=
  { name := "pen layer"
    asset := image
    md5 := Archive.Md5.digest image
    ext := ((Path.extension? path).map (fun e => e.map Char.toLower)).getD "png" }

/-- The options of a run. -/
def readOptions (a : Arguments) : RunT m Legacy.Options :=
  match a.penLayer with
  | none => pure {}
  | some path => do
    let image ← required (.cannotReadPen path) (Disk.read? path)
    pure { pen := some (penCostume path image) }

/-- Writes the project as it stands in memory. -/
def emitProject (stage : Progress) (path : String) (project : Project) : RunT m Unit := do
  announce stage
  writeFile path project.describe.pretty.toUTF8

/-- Writes the legacy document. -/
def emitDocument (stage : Progress) (path : String) (options : Legacy.Options)
    (project : Project) : RunT m Unit := do
  announce stage
  writeFile path (Legacy.encode options project).1.toJson.pretty.toUTF8

/-- Writes the archive, in a directory that is made if need be. -/
def emitArchive (stage : Progress) (path : String) (options : Legacy.Options)
    (project : Project) : RunT m Unit := do
  announce stage
  let package := Legacy.pack options project
  package.progress.forM fun p =>
    announce ⟨stage.step - 1 + p.step, stage.step - 1 + p.total, p.label⟩
  match Path.parent? path with
  | none => pure ()
  | some directory => succeeding .cannotMakeDirectory (Disk.makeDirectories directory)
  writeFile path (Archive.Zip.write .deflated package.files)

/-- **A conversion.** -/
def run (a : Arguments) : RunT m Unit := do
  let total := a.stageCount
  announce ⟨1, total, "Resolving input path"⟩
  let full ← required (.noInput a.input) (Disk.fullPath? a.input)
  announce ⟨2, total, "Decoding .sb3"⟩
  let project ← readProject a.input full
  a.emitIr.forM fun path =>
    emitProject ⟨3, total, "Writing intermediate representation"⟩ path project
  let options ← readOptions a
  let documentStage := 3 + a.emitIr.toList.length
  a.emitJson.forM fun path =>
    emitDocument ⟨documentStage, total, "Writing legacy project.json"⟩ path options project
  a.archivePath?.forM fun path =>
    emitArchive ⟨total, total, "Building .sb2"⟩ path options project

end

/-- **A conversion in a workspace**: what it ends with, and the workspace
after it. -/
def runIn (a : Arguments) (w : Workspace) : Except Failure Unit × Workspace :=
  (run a : RunT (StateM Workspace) Unit).run w

end ScratchLegacy.CommandLine
