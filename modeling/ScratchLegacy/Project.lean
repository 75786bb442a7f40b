import ScratchLegacy.Block
import ScratchLegacy.Opcode

/-!
# Projects

A project is a stage and its sprites. Each of these targets owns scripts,
costumes, sounds, variables and lists; only a sprite has a pose.
-/

namespace ScratchLegacy

/-- **A script**: a stack of blocks at a place of the editor. -/
structure Script where
  x : Float
  y : Float
  blocks : List Block
deriving Inhabited

/-- The first block of a script. -/
def Script.head? (s : Script) : Option Block := s.blocks.head?

/-- **A costume** and the bytes of its image. -/
structure Costume where
  name : String := ""
  asset : ByteArray := ByteArray.empty
  /-- The digest that names the image. -/
  md5 : String := ""
  /-- The file extension of the image. -/
  ext : String := ""
  /-- How many pixels of the image make one on the stage. -/
  bitmapResolution : Float := 1
  centerX : Option Float := none
  centerY : Option Float := none
deriving Inhabited

/-- **A sound** and its bytes. -/
structure Sound where
  name : String := ""
  asset : ByteArray := ByteArray.empty
  /-- The digest that names the sound. -/
  md5 : String := ""
  /-- The file extension of the sound. -/
  ext : String := ""
  sampleCount : Option Nat := none
  sampleRate : Option Nat := none
deriving Inhabited

/-- **How a variable is shown on the stage.** -/
inductive MonitorMode where
  | normal
  | slider
  | large
deriving DecidableEq, Inhabited

/-- The mode of a name; an unknown name is the normal mode. -/
def MonitorMode.ofName (name : String) : MonitorMode :=
  if name = "slider" then slider else if name = "large" then large else normal

/-- The name of a mode. -/
def MonitorMode.name : MonitorMode → String
  | normal => "default"
  | slider => "slider"
  | large => "large"

/-- **A variable** with the way it is shown. -/
structure Variable where
  id : String
  name : String
  value : Scalar
  cloud : Bool := false
  visible : Bool := true
  mode : MonitorMode := .normal
  x : Float := 0
  y : Float := 0
  sliderMin : Float := 0
  sliderMax : Float := 100
  isDiscrete : Bool := true
deriving DecidableEq, Inhabited

/-- **A list** with the way it is shown. -/
structure ItemList where
  id : String
  name : String
  items : List Scalar
  visible : Bool := true
  x : Float := 0
  y : Float := 0
  width : Option Float := none
  height : Option Float := none
deriving DecidableEq, Inhabited

/-- **How a sprite turns with its direction.** -/
inductive RotationStyle where
  | allAround
  | leftRight
  | fixed
deriving DecidableEq, Inhabited

namespace RotationStyle

/-- The style of a name of the current format; an unknown name turns all
around. -/
def ofName (name : String) : RotationStyle :=
  if name = "left-right" then leftRight
  else if name = "don't rotate" then fixed
  else allAround

/-- The legacy name of a style. -/
def legacyName : RotationStyle → String
  | allAround => "normal"
  | leftRight => "leftRight"
  | fixed => "none"

end RotationStyle

/-- **The pose of a sprite.** -/
structure Pose where
  x : Float := 0
  y : Float := 0
  size : Float := 100
  direction : Float := 90
  rotationStyle : RotationStyle := .allAround
  isDraggable : Bool := false
  visible : Bool := true
deriving DecidableEq, Inhabited

/-- **The stage or a sprite**; only a sprite has a pose. -/
structure Target where
  name : String
  pose : Option Pose
  scripts : List Script := []
  costumes : List Costume := []
  sounds : List Sound := []
  vars : List Variable := []
  lists : List ItemList := []
  costumeNumber : Nat := 0
  volume : Float := 100
  layerOrder : Int := 0
deriving Inhabited

namespace Target

/-- The first variable with an id. -/
def findVariable? (t : Target) (id : String) : Option Variable := t.vars.find? (·.id = id)

/-- The first list with an id. -/
def findList? (t : Target) (id : String) : Option ItemList := t.lists.find? (·.id = id)

/-- **The definition of a procedure**: the first script head that is a
definition with that proccode. -/
def definition? (t : Target) (proccode : String) : Option Block :=
  (t.scripts.filterMap Script.head?).find?
    (fun b => b.opcode = Opcode.definition && b.proccode? = some proccode)

/-- Every block of every script, nested ones included. -/
def blocks (t : Target) : List Block := t.scripts.flatMap (fun s => s.blocks.flatMap Block.visit)

/-- The ids of the variables and lists that the blocks of a target name in
their slots. -/
def references (t : Target) : List String := t.blocks.flatMap Block.slotReferences

end Target

/-- **A project.** -/
structure Project where
  stage : Target
  sprites : List Target := []
  tempo : Float := 60
  videoOn : Bool := false
  videoTransparency : Float := 50
deriving Inhabited

/-- The stage, then the sprites. -/
def Project.targets (p : Project) : List Target := p.stage :: p.sprites

end ScratchLegacy
