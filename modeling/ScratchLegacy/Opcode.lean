/-!
# Opcodes

What the shape of a block says about its parts, for every opcode of the
current format: which slots hold statements, what its fields stand for, and
which tags the literals in its slots carry.
-/

namespace ScratchLegacy

/-- **The tag of a literal** in an input slot, or of the slot itself. -/
inductive InputStatus where
  | sameBlockShadow
  | blockNoShadow
  | diffBlockShadow
  | mathNumber
  | positiveNumber
  | wholeNumber
  | integerNumber
  | angleNumber
  | colorPicker
  | text
  | broadcastName
  | variableReporter
  | listReporter
deriving DecidableEq, Inhabited

namespace InputStatus

/-- The tags in the order of their codes, which count from one. -/
def all : List InputStatus :=
  [sameBlockShadow, blockNoShadow, diffBlockShadow, mathNumber, positiveNumber, wholeNumber,
   integerNumber, angleNumber, colorPicker, text, broadcastName, variableReporter,
   listReporter]

/-- The tag with a code. -/
def ofCode? (code : Int) : Option InputStatus :=
  if 1 ≤ code then all[(code - 1).toNat]? else none

/-- The name of a tag. -/
def name : InputStatus → String
  | sameBlockShadow => "SameBlockShadow"
  | blockNoShadow => "BlockNoShadow"
  | diffBlockShadow => "DiffBlockShadow"
  | mathNumber => "MathNumber"
  | positiveNumber => "PositiveNumber"
  | wholeNumber => "WholeNumber"
  | integerNumber => "IntegerNumber"
  | angleNumber => "AngleNumber"
  | colorPicker => "ColorPicker"
  | text => "Text"
  | broadcastName => "Broadcast"
  | variableReporter => "Variable"
  | listReporter => "List"

end InputStatus

/-- **What a field of a block stands for.** -/
inductive FieldKind where
  | variableRef
  | listRef
  | broadcastRef
  | number
  | text
  /-- A choice from the menu of this name. -/
  | menu (kind : String)
deriving DecidableEq, Inhabited

/-- The name of a field kind. -/
def FieldKind.name : FieldKind → String
  | variableRef => "variable"
  | listRef => "list"
  | broadcastRef => "broadcast"
  | number => "number"
  | text => "string"
  | menu kind => "menu:" ++ kind

namespace Opcode

/-- The opcodes that name a variable in their `VARIABLE` field. -/
def variableOpcodes : List String :=
  ["control_for_each", "data_variable", "data_setvariableto", "data_changevariableby",
   "data_showvariable", "data_hidevariable"]

/-- The opcodes that name a list in their `LIST` field. -/
def listOpcodes : List String :=
  ["data_listcontents", "data_addtolist", "data_deleteoflist", "data_deletealloflist",
   "data_insertatlist", "data_replaceitemoflist", "data_itemoflist", "data_itemnumoflist",
   "data_lengthoflist", "data_listcontainsitem", "data_showlist", "data_hidelist"]

/-- The fields of the remaining opcodes that have any: those of the blocks
first, then those of the menus that are inlined into the block owning them. -/
def fieldTable : List (String × String × FieldKind) :=
  [("motion_setrotationstyle", "STYLE", .menu "rotationStyle"),
   ("motion_align_scene", "ALIGNMENT", .menu "scrollAlignment"),
   ("looks_gotofrontback", "FRONT_BACK", .menu "frontBackMenu"),
   ("looks_goforwardbackwardlayers", "FORWARD_BACKWARD", .menu "forwardBackwardMenu"),
   ("looks_changeeffectby", "EFFECT", .menu "graphicEffect"),
   ("looks_seteffectto", "EFFECT", .menu "graphicEffect"),
   ("looks_backdropnumbername", "NUMBER_NAME", .menu "costumeNumberName"),
   ("looks_costumenumbername", "NUMBER_NAME", .menu "costumeNumberName"),
   ("sound_seteffectto", "EFFECT", .menu "soundEffect"),
   ("sound_changeeffectby", "EFFECT", .menu "soundEffect"),
   ("event_whenkeypressed", "KEY_OPTION", .menu "key"),
   ("event_whenbackdropswitchesto", "BACKDROP", .menu "backdrop"),
   ("event_whengreaterthan", "WHENGREATERTHANMENU", .menu "greaterThanMenu"),
   ("event_whenbroadcastreceived", "BROADCAST_OPTION", .broadcastRef),
   ("event_broadcast_menu", "BROADCAST_OPTION", .broadcastRef),
   ("control_stop", "STOP_OPTION", .menu "stopMenu"),
   ("sensing_setdragmode", "DRAG_MODE", .menu "dragModeMenu"),
   ("sensing_of", "PROPERTY", .menu "propertyOfMenu"),
   ("sensing_current", "CURRENTMENU", .menu "currentMenu"),
   ("operator_mathop", "OPERATOR", .menu "mathopMenu"),
   ("argument_reporter_string_number", "VALUE", .text),
   ("argument_reporter_boolean", "VALUE", .text),
   ("motion_pointtowards_menu", "TOWARDS", .menu "pointTowardsTarget"),
   ("motion_glideto_menu", "TO", .menu "goToTarget"),
   ("motion_goto_menu", "TO", .menu "goToTarget"),
   ("looks_costume", "COSTUME", .menu "costume"),
   ("looks_backdrops", "BACKDROP", .menu "backdrop"),
   ("sound_sounds_menu", "SOUND_MENU", .menu "sound"),
   ("control_create_clone_of_menu", "CLONE_OPTION", .menu "cloneTarget"),
   ("sensing_touchingobjectmenu", "TOUCHINGOBJECTMENU", .menu "touchingTarget"),
   ("sensing_distancetomenu", "DISTANCETOMENU", .menu "distanceToMenu"),
   ("sensing_keyoptions", "KEY_OPTION", .menu "key"),
   ("sensing_of_object_menu", "OBJECT", .menu "target"),
   ("pen_menu_colorParam", "colorParam", .menu "penColorParam"),
   ("music_menu_DRUM", "DRUM", .menu "musicDrum"),
   ("music_menu_INSTRUMENT", "INSTRUMENT", .menu "musicInstrument"),
   ("note", "NOTE", .number),
   ("videoSensing_menu_ATTRIBUTE", "ATTRIBUTE", .menu "videoSensingAttribute"),
   ("videoSensing_menu_SUBJECT", "SUBJECT", .menu "videoSensingSubject"),
   ("videoSensing_menu_VIDEO_STATE", "VIDEO_STATE", .menu "videoSensingVideoState"),
   ("wedo2_menu_MOTOR_ID", "MOTOR_ID", .menu "wedo2MotorId"),
   ("wedo2_menu_MOTOR_DIRECTION", "MOTOR_DIRECTION", .menu "wedo2MotorDirection"),
   ("wedo2_menu_TILT_DIRECTION", "TILT_DIRECTION", .menu "wedo2TiltDirection"),
   ("wedo2_menu_TILT_DIRECTION_ANY", "TILT_DIRECTION_ANY", .menu "wedo2TiltDirectionAny"),
   ("wedo2_menu_OP", "OP", .menu "wedo2Op")]

/-- **The one known field of an opcode** and what it stands for. An opcode
without an entry has no known field, and whatever fields a block of it
carries are dropped. -/
def field? (opcode : String) : Option (String × FieldKind) :=
  if opcode ∈ variableOpcodes then some ("VARIABLE", .variableRef)
  else if opcode ∈ listOpcodes then some ("LIST", .listRef)
  else (fieldTable.find? (fun row => row.1 = opcode)).map Prod.snd

/-- What a named field of an opcode stands for. -/
def fieldKind? (opcode name : String) : Option FieldKind :=
  (field? opcode).bind (fun f => if f.1 = name then some f.2 else none)

/-- The opcodes with one statement slot, `SUBSTACK`. -/
def loopOpcodes : List String :=
  ["control_repeat", "control_forever", "control_if", "control_repeat_until", "control_while",
   "control_for_each", "control_all_at_once"]

/-- **Whether a slot holds statements** rather than an expression. -/
def isStatementSlot (opcode slot : String) : Bool :=
  if opcode = "control_if_else" then slot = "SUBSTACK" || slot = "SUBSTACK2"
  else opcode ∈ loopOpcodes && slot = "SUBSTACK"

/-- The opcode of a procedure definition, which heads a script. -/
def definition : String := "procedures_definition"

/-- The opcode of a procedure call. -/
def call : String := "procedures_call"

/-- The opcode of the shadow that carries a definition's signature. -/
def prototype : String := "procedures_prototype"

/-- The opcode of the shadow menu whose field goes by another name in the
block that owns it. -/
def colorParamMenu : String := "pen_menu_colorParam"

/-- The opcode of the reporter that the legacy format lacks. -/
def itemNumber : String := "data_itemnumoflist"

end Opcode

end ScratchLegacy
