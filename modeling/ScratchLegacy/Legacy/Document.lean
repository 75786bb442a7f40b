import ScratchLegacy.Legacy.AssetTable
import ScratchLegacy.Legacy.Emission
import ScratchLegacy.Wave

/-!
# Legacy documents

The legacy format has one document, in which the sprites are the children of
the stage. `Legacy.encode` writes a project as one, and gives with it the
table of the assets that the document numbers.

The numbers follow the order in which the document is written: of each target
first the sounds, then the costumes; of the stage also the pen layer, before
the sprites.
-/

namespace ScratchLegacy.Legacy

/-- **What a conversion can be told.** -/
structure Options where
  /-- The image of the pen layer. -/
  pen : Option ScratchLegacy.Costume := none
  /-- What to do with a sound that is no wave file. -/
  convert : ScratchLegacy.Sound → ScratchLegacy.Sound := id
  /-- The format of a sound, as it is written. -/
  format : ScratchLegacy.Sound → SoundFormat := Wave.format

/-- **The file of an asset**: its number, and the digest and extension that
name its content. -/
structure AssetRef where
  number : Nat
  md5 : String
  ext : String
deriving DecidableEq, Inhabited

/-- The name of the content of an asset. -/
def AssetRef.contentName (r : AssetRef) : String := r.md5 ++ "." ++ r.ext

/-- **A sound of a legacy document.** -/
structure SoundEntry where
  name : String
  file : AssetRef
  sampleCount : Option Nat
  rate : Option Nat
  format : SoundFormat
deriving DecidableEq, Inhabited

/-- **A costume of a legacy document.** The center is in steps of the stage,
not in pixels. -/
structure CostumeEntry where
  name : String
  file : AssetRef
  bitmapResolution : Float
  centerX : Option Float
  centerY : Option Float
deriving DecidableEq, Inhabited

/-- **The stage or a sprite of a legacy document.** -/
structure TargetEntry where
  name : String
  costumeIndex : Nat
  scripts : List Script
  sounds : List SoundEntry
  costumes : List CostumeEntry
  vars : List Variable
  lists : List ItemList
deriving Inhabited

/-- **A sprite of a legacy document.** -/
structure SpriteEntry where
  target : TargetEntry
  pose : Pose
  index : Nat
deriving Inhabited

/-- **A legacy document.** -/
structure Document where
  stage : TargetEntry
  pen : Option AssetRef
  tempo : Float
  videoTransparency : Float
  sprites : List SpriteEntry
  videoOn : Bool
deriving Inhabited

/-! ## Writing the parts -/

/-- The sound as it is stored: one that is no wave file is converted. -/
def Options.stored (options : Options) (sound : ScratchLegacy.Sound) : ScratchLegacy.Sound :=
  if sound.ext = "wav" then sound else options.convert sound

/-- A sound, numbered. -/
def encodeSound (options : Options) (sound : ScratchLegacy.Sound) : Numbering SoundEntry := do
  let stored := options.stored sound
  let number ← Numbering.register (.sound stored)
  pure
    { name := stored.name
      file := ⟨number, stored.md5, stored.ext⟩
      sampleCount := stored.sampleCount
      rate := stored.sampleRate
      format := options.format stored }

/-- A costume, numbered. -/
def encodeCostume (costume : ScratchLegacy.Costume) : Numbering CostumeEntry := do
  let number ← Numbering.register (.costume costume)
  pure
    { name := costume.name
      file := ⟨number, costume.md5, costume.ext⟩
      bitmapResolution := costume.bitmapResolution
      centerX := costume.centerX.map (· / costume.bitmapResolution)
      centerY := costume.centerY.map (· / costume.bitmapResolution) }

/-- A target, its sounds numbered before its costumes. -/
def encodeTarget (options : Options) (target : Target) : Numbering TargetEntry := do
  let sounds ← target.sounds.mapM (encodeSound options)
  let costumes ← target.costumes.mapM encodeCostume
  pure
    { name := target.name
      costumeIndex := target.costumeNumber
      scripts := emitScripts target
      sounds := sounds
      costumes := costumes
      vars := target.vars
      lists := target.lists }

/-- The pen layer, numbered. -/
def encodePen (options : Options) : Numbering (Option AssetRef) :=
  match options.pen with
  | none => pure none
  | some pen => do
    let number ← Numbering.register (.costume pen)
    pure (some ⟨number, pen.md5, pen.ext⟩)

/-- A sprite at its place among the sprites. A target without a pose stands
as a new sprite does. -/
def encodeSprite (options : Options) (sprite : Target × Nat) : Numbering SpriteEntry := do
  let target ← encodeTarget options sprite.1
  pure ⟨target, sprite.1.pose.getD {}, sprite.2⟩

/-- A project, from an empty table on. -/
def encodeProject (options : Options) (project : Project) : Numbering Document := do
  let stage ← encodeTarget options project.stage
  let pen ← encodePen options
  let sprites ← project.sprites.zipIdx.mapM (encodeSprite options)
  pure
    { stage := stage
      pen := pen
      tempo := project.tempo
      videoTransparency := project.videoTransparency
      sprites := sprites
      videoOn := project.videoOn }

/-- **The legacy document of a project**, with its assets. -/
def encode (options : Options) (project : Project) : Document × AssetTable :=
  (encodeProject options project).run []

/-! ## JSON -/

/-- The JSON value of a sound. -/
def SoundEntry.toJson (s : SoundEntry) : Json :=
  .object
    [("soundName", .text s.name),
     ("soundID", .ofNat s.file.number),
     ("md5", .text s.file.contentName),
     ("sampleCount", Json.ofOption Json.ofNat s.sampleCount),
     ("rate", Json.ofOption Json.ofNat s.rate),
     ("format", .text s.format.tag)]

/-- The JSON value of a costume. -/
def CostumeEntry.toJson (c : CostumeEntry) : Json :=
  .object
    [("costumeName", .text c.name),
     ("baseLayerID", .ofNat c.file.number),
     ("baseLayerMD5", .text c.file.contentName),
     ("bitmapResolution", Json.ofFloat c.bitmapResolution),
     ("rotationCenterX", Json.ofOption Json.ofFloat c.centerX),
     ("rotationCenterY", Json.ofOption Json.ofFloat c.centerY)]

/-- The JSON value of a variable. -/
def variableJson (v : Variable) : Json :=
  .object
    [("name", .text v.name),
     ("value", v.value.toJson),
     ("isPersistent", .bool v.cloud)]

/-- The JSON value of a list. -/
def listJson (l : ItemList) : Json :=
  .object
    [("listName", .text l.name),
     ("contents", .array (l.items.map Scalar.toJson)),
     ("isPersistent", .bool false),
     ("x", Json.ofFloat l.x),
     ("y", Json.ofFloat l.y),
     ("width", Json.ofOption Json.ofFloat l.width),
     ("height", Json.ofOption Json.ofFloat l.height),
     ("visible", .bool l.visible)]

/-- The entries that the stage and the sprites share. -/
def TargetEntry.entries (t : TargetEntry) : List (String × Json) :=
  [("objName", .text t.name),
   ("currentCostumeIndex", .ofNat t.costumeIndex),
   ("scripts", .array (t.scripts.map Script.toJson)),
   ("sounds", .array (t.sounds.map SoundEntry.toJson)),
   ("costumes", .array (t.costumes.map CostumeEntry.toJson)),
   ("variables", .array (t.vars.map variableJson)),
   ("lists", .array (t.lists.map listJson))]

/-- The JSON value of a sprite. -/
def SpriteEntry.toJson (s : SpriteEntry) : Json :=
  .object <| s.target.entries ++
    [("scratchX", Json.ofFloat s.pose.x),
     ("scratchY", Json.ofFloat s.pose.y),
     ("scale", Json.ofFloat (s.pose.size / 100)),
     ("direction", Json.ofFloat s.pose.direction),
     ("rotationStyle", .text s.pose.rotationStyle.legacyName),
     ("isDraggable", .bool s.pose.isDraggable),
     ("visible", .bool s.pose.visible),
     ("indexInLibrary", .ofNat s.index)]

/-- The entries of the pen layer. -/
def penEntries : Option AssetRef → List (String × Json)
  | none => []
  | some file => [("penLayerMD5", .text file.contentName), ("penLayerID", .ofNat file.number)]

/-- **The JSON value of a legacy document.** -/
def Document.toJson (d : Document) : Json :=
  .object <| d.stage.entries ++ penEntries d.pen ++
    [("tempoBPM", Json.ofFloat d.tempo),
     ("videoAlpha", Json.ofFloat (1 - d.videoTransparency / 100)),
     ("children", .array (d.sprites.map SpriteEntry.toJson)),
     ("info", .object (if d.videoOn then [("videoOn", .bool true)] else []))]

end ScratchLegacy.Legacy
