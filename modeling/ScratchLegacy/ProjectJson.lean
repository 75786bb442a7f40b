import ScratchLegacy.Project

/-!
# Projects as JSON

A project can be written out as it stands in memory, with every block at its
place in the tree. Unlike the legacy document, this form writes every number
of the project as a double, and leaves the bytes of the assets out.
-/

namespace ScratchLegacy

/-- The JSON value of a scalar, its number as a double. -/
def Scalar.describe : Scalar → Json
  | number x => Json.ofDouble x
  | text s => .text s
  | boolean b => .bool b

/-- The JSON value of a reference. -/
def DataRef.describe (r : DataRef) : Json := .object [("id", .text r.id), ("name", .text r.name)]

/-- The JSON value of a color. -/
def Color.describe (c : Color) : Json :=
  .object [("r", .ofNat c.red.toNat), ("g", .ofNat c.green.toNat), ("b", .ofNat c.blue.toNat)]

/-- The JSON value of a piece of a signature. -/
def Parameter.describe : Parameter → Json
  | label text => .object [("type", .text "label"), ("text", .text text)]
  | value name default =>
    .object
      [("type", .text "numberOrString"), ("name", .text name), ("default", default.describe)]
  | boolean name default =>
    .object [("type", .text "boolean"), ("name", .text name), ("default", .bool default)]

/-- The JSON value of a signature. -/
def Signature.describe (s : Signature) : Json :=
  .object
    [("proccode", .text s.proccode),
     ("argument_ids", .array (s.argumentIds.map Json.text)),
     ("arguments", .array (s.parameters.map Parameter.describe)),
     ("warp", .bool s.warp)]

/-- The entry of a signature, none where there is no signature. -/
def Signature.entries : Option Signature → List (String × Json)
  | none => []
  | some s => [("mutation", s.describe)]

/-- A JSON value with the name of its type. -/
def tagged (type : String) (value : Json) : Json :=
  .object [("type", .text type), ("value", value)]

mutual

/-- **The JSON value of a block.** -/
def Block.describe : Block → Json
  | ⟨id, opcode, inputs, signature⟩ =>
    .object <|
      [("id", .text id), ("opcode", .text opcode), ("inputs", .object (describeSlots inputs))]
        ++ Signature.entries signature

/-- The JSON values of slots. -/
def describeSlots : List (String × Input) → List (String × Json)
  | [] => []
  | (slot, input) :: rest => (slot, Input.describe input) :: describeSlots rest

/-- The JSON value of what fills a slot. -/
def Input.describe : Input → Json
  | .number value => tagged "number" value.describe
  | .angle degrees => tagged "angle" (Json.ofDouble degrees)
  | .color c => tagged "color" c.describe
  | .text s => tagged "string" (.text s)
  | .boolean b => tagged "boolean" (.bool b)
  | .broadcastRef r => tagged "broadcast" r.describe
  | .variableRef r => tagged "variable" r.describe
  | .listRef r => tagged "list" r.describe
  | .menu kind choice =>
    tagged "menu" (.object [("kind", .text kind), ("value", .text choice)])
  | .block b => tagged "block" (Block.describe b)
  | .stack blocks => tagged "blocks" (.array (describeBlocks blocks))
  | .arguments values => tagged "procedureInputs" (.array (describeInputs values))

/-- The JSON values of the blocks of a stack. -/
def describeBlocks : List Block → List Json
  | [] => []
  | b :: rest => Block.describe b :: describeBlocks rest

/-- The JSON values of arguments. -/
def describeInputs : List Input → List Json
  | [] => []
  | v :: rest => Input.describe v :: describeInputs rest

end

/-- The JSON value of a script. -/
def Script.describe (s : Script) : Json :=
  .object
    [("x", Json.ofDouble s.x), ("y", Json.ofDouble s.y), ("blocks", .array (describeBlocks s.blocks))]

/-- The JSON value of a costume, without its bytes. -/
def Costume.describe (c : Costume) : Json :=
  .object
    [("name", .text c.name), ("md5", .text c.md5), ("ext", .text c.ext),
     ("bitmap_resolution", Json.ofDouble c.bitmapResolution),
     ("center_x", Json.ofOption Json.ofDouble c.centerX),
     ("center_y", Json.ofOption Json.ofDouble c.centerY)]

/-- The JSON value of a sound, without its bytes. -/
def Sound.describe (s : Sound) : Json :=
  .object
    [("name", .text s.name), ("md5", .text s.md5), ("ext", .text s.ext),
     ("sample_count", Json.ofOption Json.ofNat s.sampleCount),
     ("sample_rate", Json.ofOption Json.ofNat s.sampleRate)]

/-- The JSON value of a variable. -/
def Variable.describe (v : Variable) : Json :=
  .object
    [("id", .text v.id), ("name", .text v.name), ("value", v.value.describe),
     ("cloud", .bool v.cloud), ("visible", .bool v.visible), ("mode", .text v.mode.name),
     ("x", Json.ofDouble v.x), ("y", Json.ofDouble v.y),
     ("slider_min", Json.ofDouble v.sliderMin), ("slider_max", Json.ofDouble v.sliderMax),
     ("is_discrete", .bool v.isDiscrete)]

/-- The JSON value of a list. -/
def ItemList.describe (l : ItemList) : Json :=
  .object
    [("id", .text l.id), ("name", .text l.name), ("value", .array (l.items.map Scalar.describe)),
     ("visible", .bool l.visible), ("x", Json.ofDouble l.x), ("y", Json.ofDouble l.y),
     ("width", Json.ofOption Json.ofDouble l.width),
     ("height", Json.ofOption Json.ofDouble l.height)]

/-- The name of a rotation style in this form. -/
def RotationStyle.describe (s : RotationStyle) : Json := .text s.legacyName

/-- The entries of a pose. -/
def Pose.entries (p : Pose) : List (String × Json) :=
  [("x", Json.ofDouble p.x), ("y", Json.ofDouble p.y), ("size", Json.ofDouble p.size),
   ("direction", Json.ofDouble p.direction), ("rotation_style", p.rotationStyle.describe),
   ("is_draggable", .bool p.isDraggable), ("visible", .bool p.visible)]

/-- The JSON value of the kind of a target: a sprite's kind holds its pose. -/
def describeKind : Option Pose → Json
  | none => .object [("kind", .text "stage")]
  | some pose => .object (("kind", .text "sprite") :: pose.entries)

/-- The JSON value of a target. -/
def Target.describe (t : Target) : Json :=
  .object
    [("name", .text t.name), ("kind", describeKind t.pose),
     ("scripts", .array (t.scripts.map Script.describe)),
     ("costumes", .array (t.costumes.map Costume.describe)),
     ("sounds", .array (t.sounds.map Sound.describe)),
     ("variables", .array (t.vars.map Variable.describe)),
     ("lists", .array (t.lists.map ItemList.describe)),
     ("costume_number", Json.ofNat t.costumeNumber),
     ("volume", Json.ofDouble t.volume),
     ("layer_order", .number (.integer t.layerOrder))]

/-- **The JSON value of a project.** -/
def Project.describe (p : Project) : Json :=
  .object
    [("stage", p.stage.describe), ("sprites", .array (p.sprites.map Target.describe)),
     ("tempo", Json.ofDouble p.tempo), ("video_on", .bool p.videoOn),
     ("video_transparency", Json.ofDouble p.videoTransparency)]

end ScratchLegacy
