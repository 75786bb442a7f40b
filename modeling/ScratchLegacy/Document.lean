import ScratchLegacy.Asset
import ScratchLegacy.Liveness
import ScratchLegacy.Monitor
import ScratchLegacy.ScriptTree

/-!
# Documents of the current format

`Project.ofDocument` rebuilds a project from its document: the stage first,
then the sprites in their order. Each target is complete – name, assets,
scripts – before the next one is begun, and dead data is dropped at the end,
when the blocks of every target are known.
-/

namespace ScratchLegacy

/-- **Why a document is no project.** -/
inductive DocumentError where
  | missingTargets
  | missingStage
  /-- A target has no name. -/
  | missingName
  /-- The assets of a target are not complete. -/
  | asset (error : AssetError)
  /-- The script with this id, of this target, cannot be rebuilt. -/
  | script (id owner : String) (error : ScriptError)
deriving DecidableEq, Inhabited

/-- Whether a target is the stage. -/
def isStage (target : Json) : Bool := target.flag "isStage"

/-- The pose of a sprite. -/
def Pose.ofJson (target : Json) : Pose :=
  { x := target.floatOr "x" 0
    y := target.floatOr "y" 0
    size := target.floatOr "size" 100
    direction := target.floatOr "direction" 90
    rotationStyle := RotationStyle.ofName (((target.get? "rotationStyle").bind Json.asText?).getD "")
    isDraggable := target.flag "draggable"
    visible := ((target.get? "visible").bind Json.asBool?).getD true }

/-- **The target that a JSON value describes**, given the monitors of the
document and the order in which the fetches of its assets complete. -/
def Target.ofJson (fetch : Fetcher) (arrange : Arrangement) (monitors : List Json)
    (target : Json) : Except DocumentError Target :=
  match (target.get? "name").bind Json.asText? with
  | none => .error .missingName
  | some name =>
    match Asset.fetchAll (m := Id) fetch arrange name (Json.items (target.get? "costumes"))
        (Json.items (target.get? "sounds")) with
    | .error error => .error (.asset error)
    | .ok (costumes, sounds) =>
      match (BlockTable.ofEntries (Json.entries (target.get? "blocks"))).scripts with
      | .error (id, error) => .error (.script id name error)
      | .ok scripts =>
        .ok
          { name := name
            pose := if isStage target then none else some (Pose.ofJson target)
            scripts := scripts
            costumes := costumes
            sounds := sounds
            vars :=
              Variable.ofDeclarations monitors (Json.entries (target.get? "variables"))
            lists := ItemList.ofDeclarations monitors (Json.entries (target.get? "lists"))
            costumeNumber := ((target.get? "currentCostume").bind Json.asNat?).getD 0
            volume := target.floatOr "volume" 100
            layerOrder := ((target.get? "layerOrder").bind Json.asInt?).getD 0 }

/-- The project of a document, its dead data included. -/
def Project.ofDocumentUnpruned (fetch : Fetcher) (arrange : Arrangement) (document : Json) :
    Except DocumentError Project :=
  match (document.get? "targets").bind Json.asArray? with
  | none => .error .missingTargets
  | some targets =>
    let monitors := Json.items (document.get? "monitors")
    match targets.find? isStage with
    | none => .error .missingStage
    | some stage => do
      let stageTarget ← Target.ofJson fetch arrange monitors stage
      let sprites ←
        (targets.filter (fun t => !isStage t)).mapM (Target.ofJson fetch arrange monitors)
      pure
        { stage := stageTarget
          sprites := sprites
          tempo := stage.floatOr "tempo" 60
          videoOn := (stage.get? "videoState").bind Json.asText? = some "on"
          videoTransparency := stage.floatOr "videoTransparency" 50 }

/-- **The project of a document**, the fetches of whose assets complete in the
order of their requests. -/
def Project.ofDocument (fetch : Fetcher) (document : Json) : Except DocumentError Project :=
  (Project.ofDocumentUnpruned fetch .ofRequests document).map Project.prune

end ScratchLegacy
