import ScratchLegacy.Legacy.Token

/-!
# The legacy vocabulary

Most opcodes have one legacy operation, whose arguments are slots of the
block in a fixed order. This table holds them. The few opcodes whose
translation looks at what a slot says, or needs more than one operation, are
not in it.
-/

namespace ScratchLegacy.Legacy

/-- **An argument of a legacy operation.** -/
inductive Argument where
  /-- What fills a slot, as an expression. -/
  | slot (name : String)
  /-- What fills a slot, as a stack of statements. -/
  | body (name : String)
  /-- The same word in every block. -/
  | word (text : String)
deriving DecidableEq, Inhabited

/-- **The legacy operation of an opcode** and its arguments. -/
structure Form where
  opcode : String
  operation : String
  arguments : List Argument
deriving DecidableEq, Inhabited

/-- An operation whose arguments are slots with expressions. -/
def Form.ofSlots (opcode operation : String) (slots : List String) : Form :=
  ⟨opcode, operation, slots.map Argument.slot⟩

/-- Motion. -/
def motionForms : List Form :=
  [.ofSlots "motion_movesteps" "forward:" ["STEPS"],
   .ofSlots "motion_turnright" "turnRight:" ["DEGREES"],
   .ofSlots "motion_turnleft" "turnLeft:" ["DEGREES"],
   .ofSlots "motion_pointindirection" "heading:" ["DIRECTION"],
   .ofSlots "motion_pointtowards" "pointTowards:" ["TOWARDS"],
   .ofSlots "motion_gotoxy" "gotoX:y:" ["X", "Y"],
   .ofSlots "motion_goto" "gotoSpriteOrMouse:" ["TO"],
   .ofSlots "motion_glidesecstoxy" "glideSecs:toX:y:elapsed:from:" ["SECS", "X", "Y"],
   .ofSlots "motion_changexby" "changeXposBy:" ["DX"],
   .ofSlots "motion_setx" "xpos:" ["X"],
   .ofSlots "motion_changeyby" "changeYposBy:" ["DY"],
   .ofSlots "motion_sety" "ypos:" ["Y"],
   .ofSlots "motion_ifonedgebounce" "bounceOffEdge" [],
   .ofSlots "motion_setrotationstyle" "setRotationStyle" ["STYLE"],
   .ofSlots "motion_xposition" "xpos" [],
   .ofSlots "motion_yposition" "ypos" [],
   .ofSlots "motion_direction" "heading" [],
   .ofSlots "motion_scroll_right" "scrollRight" ["DISTANCE"],
   .ofSlots "motion_scroll_up" "scrollUp" ["DISTANCE"],
   .ofSlots "motion_align_scene" "scrollAlign" ["ALIGNMENT"],
   .ofSlots "motion_xscroll" "xScroll" [],
   .ofSlots "motion_yscroll" "yScroll" []]

/-- Looks. -/
def looksForms : List Form :=
  [.ofSlots "looks_sayforsecs" "say:duration:elapsed:from:" ["MESSAGE", "SECS"],
   .ofSlots "looks_say" "say:" ["MESSAGE"],
   .ofSlots "looks_thinkforsecs" "think:duration:elapsed:from:" ["MESSAGE", "SECS"],
   .ofSlots "looks_think" "think:" ["MESSAGE"],
   .ofSlots "looks_show" "show" [],
   .ofSlots "looks_hide" "hide" [],
   .ofSlots "looks_hideallsprites" "hideAll" [],
   .ofSlots "looks_switchcostumeto" "lookLike:" ["COSTUME"],
   .ofSlots "looks_nextcostume" "nextCostume" [],
   .ofSlots "looks_switchbackdropto" "startScene" ["BACKDROP"],
   .ofSlots "looks_switchbackdroptoandwait" "startSceneAndWait" ["BACKDROP"],
   .ofSlots "looks_nextbackdrop" "nextScene" [],
   .ofSlots "looks_changeeffectby" "changeGraphicEffect:by:" ["EFFECT", "CHANGE"],
   .ofSlots "looks_seteffectto" "setGraphicEffect:to:" ["EFFECT", "VALUE"],
   .ofSlots "looks_cleargraphiceffects" "filterReset" [],
   .ofSlots "looks_changesizeby" "changeSizeBy:" ["CHANGE"],
   .ofSlots "looks_setsizeto" "setSizeTo:" ["SIZE"],
   .ofSlots "looks_changestretchby" "changeStretchBy:" ["CHANGE"],
   .ofSlots "looks_setstretchto" "setStretchTo:" ["STRETCH"],
   .ofSlots "looks_size" "scale" []]

/-- Sound and music. -/
def soundForms : List Form :=
  [.ofSlots "sound_play" "playSound:" ["SOUND_MENU"],
   .ofSlots "sound_playuntildone" "doPlaySoundAndWait" ["SOUND_MENU"],
   .ofSlots "sound_stopallsounds" "stopAllSounds" [],
   .ofSlots "sound_changevolumeby" "changeVolumeBy:" ["VOLUME"],
   .ofSlots "sound_setvolumeto" "setVolumeTo:" ["VOLUME"],
   .ofSlots "sound_volume" "volume" [],
   .ofSlots "music_playDrumForBeats" "playDrum" ["DRUM", "BEATS"],
   .ofSlots "music_midiPlayDrumForBeats" "drum:duration:elapsed:from:" ["DRUM", "BEATS"],
   .ofSlots "music_restForBeats" "rest:elapsed:from:" ["BEATS"],
   .ofSlots "music_playNoteForBeats" "noteOn:duration:elapsed:from:" ["NOTE", "BEATS"],
   .ofSlots "music_setInstrument" "instrument:" ["INSTRUMENT"],
   .ofSlots "music_midiSetInstrument" "midiInstrument:" ["INSTRUMENT"],
   .ofSlots "music_changeTempo" "changeTempoBy:" ["TEMPO"],
   .ofSlots "music_setTempo" "setTempoTo:" ["TEMPO"],
   .ofSlots "music_getTempo" "tempo" []]

/-- Pen and video. -/
def penForms : List Form :=
  [.ofSlots "pen_clear" "clearPenTrails" [],
   .ofSlots "pen_stamp" "stampCostume" [],
   .ofSlots "pen_penDown" "putPenDown" [],
   .ofSlots "pen_penUp" "putPenUp" [],
   .ofSlots "pen_setPenColorToColor" "penColor:" ["COLOR"],
   .ofSlots "pen_changePenHueBy" "changePenHueBy:" ["HUE"],
   .ofSlots "pen_setPenHueToNumber" "setPenHueTo:" ["HUE"],
   .ofSlots "pen_changePenShadeBy" "changePenShadeBy:" ["SHADE"],
   .ofSlots "pen_setPenShadeToNumber" "setPenShadeTo:" ["SHADE"],
   .ofSlots "pen_changePenSizeBy" "changePenSizeBy:" ["SIZE"],
   .ofSlots "pen_setPenSizeTo" "penSize:" ["SIZE"],
   .ofSlots "videoSensing_videoOn" "senseVideoMotion" ["ATTRIBUTE", "SUBJECT"],
   ⟨"videoSensing_whenMotionGreaterThan", "whenSensorGreaterThan",
     [.word "video motion", .slot "REFERENCE"]⟩,
   .ofSlots "videoSensing_videoToggle" "setVideoState" ["VIDEO_STATE"],
   .ofSlots "videoSensing_setVideoTransparency" "setVideoTransparency" ["TRANSPARENCY"]]

/-- Events and control. -/
def controlForms : List Form :=
  [.ofSlots "event_whenflagclicked" "whenGreenFlag" [],
   .ofSlots "event_whenkeypressed" "whenKeyPressed" ["KEY_OPTION"],
   .ofSlots "event_whenthisspriteclicked" "whenClicked" [],
   .ofSlots "event_whenstageclicked" "whenClicked" [],
   .ofSlots "event_whenbackdropswitchesto" "whenSceneStarts" ["BACKDROP"],
   .ofSlots "event_whengreaterthan" "whenSensorGreaterThan" ["WHENGREATERTHANMENU", "VALUE"],
   .ofSlots "event_whenbroadcastreceived" "whenIReceive" ["BROADCAST_OPTION"],
   .ofSlots "event_broadcast" "broadcast:" ["BROADCAST_INPUT"],
   .ofSlots "event_broadcastandwait" "doBroadcastAndWait" ["BROADCAST_INPUT"],
   .ofSlots "control_wait" "wait:elapsed:from:" ["DURATION"],
   ⟨"control_repeat", "doRepeat", [.slot "TIMES", .body "SUBSTACK"]⟩,
   ⟨"control_forever", "doForever", [.body "SUBSTACK"]⟩,
   ⟨"control_if", "doIf", [.slot "CONDITION", .body "SUBSTACK"]⟩,
   ⟨"control_if_else", "doIfElse", [.slot "CONDITION", .body "SUBSTACK", .body "SUBSTACK2"]⟩,
   .ofSlots "control_wait_until" "doWaitUntil" ["CONDITION"],
   ⟨"control_repeat_until", "doUntil", [.slot "CONDITION", .body "SUBSTACK"]⟩,
   ⟨"control_while", "doWhile", [.slot "CONDITION", .body "SUBSTACK"]⟩,
   ⟨"control_for_each", "doForLoop", [.slot "VARIABLE", .slot "VALUE", .body "SUBSTACK"]⟩,
   .ofSlots "control_stop" "stopScripts" ["STOP_OPTION"],
   .ofSlots "control_start_as_clone" "whenCloned" [],
   .ofSlots "control_create_clone_of" "createCloneOf" ["CLONE_OPTION"],
   .ofSlots "control_delete_this_clone" "deleteClone" [],
   .ofSlots "control_get_counter" "COUNT" [],
   .ofSlots "control_incr_counter" "INCR_COUNT" [],
   .ofSlots "control_clear_counter" "CLR_COUNT" [],
   ⟨"control_all_at_once", "warpSpeed", [.body "SUBSTACK"]⟩]

/-- Sensing. -/
def sensingForms : List Form :=
  [.ofSlots "sensing_touchingobject" "touching:" ["TOUCHINGOBJECTMENU"],
   .ofSlots "sensing_touchingcolor" "touchingColor:" ["COLOR"],
   .ofSlots "sensing_coloristouchingcolor" "color:sees:" ["COLOR", "COLOR2"],
   .ofSlots "sensing_distanceto" "distanceTo:" ["DISTANCETOMENU"],
   .ofSlots "sensing_askandwait" "doAsk" ["QUESTION"],
   .ofSlots "sensing_answer" "answer" [],
   .ofSlots "sensing_keypressed" "keyPressed:" ["KEY_OPTION"],
   .ofSlots "sensing_mousedown" "mousePressed" [],
   .ofSlots "sensing_mousex" "mouseX" [],
   .ofSlots "sensing_mousey" "mouseY" [],
   .ofSlots "sensing_loudness" "soundLevel" [],
   .ofSlots "sensing_loud" "isLoud" [],
   .ofSlots "sensing_timer" "timer" [],
   .ofSlots "sensing_resettimer" "timerReset" [],
   .ofSlots "sensing_of" "getAttribute:of:" ["PROPERTY", "OBJECT"],
   .ofSlots "sensing_current" "timeAndDate" ["CURRENTMENU"],
   .ofSlots "sensing_dayssince2000" "timestamp" [],
   .ofSlots "sensing_userid" "getUserId" []]

/-- Operators. -/
def operatorForms : List Form :=
  [.ofSlots "operator_add" "+" ["NUM1", "NUM2"],
   .ofSlots "operator_subtract" "-" ["NUM1", "NUM2"],
   .ofSlots "operator_multiply" "*" ["NUM1", "NUM2"],
   .ofSlots "operator_divide" "/" ["NUM1", "NUM2"],
   .ofSlots "operator_random" "randomFrom:to:" ["FROM", "TO"],
   .ofSlots "operator_lt" "<" ["OPERAND1", "OPERAND2"],
   .ofSlots "operator_equals" "=" ["OPERAND1", "OPERAND2"],
   .ofSlots "operator_gt" ">" ["OPERAND1", "OPERAND2"],
   .ofSlots "operator_and" "&" ["OPERAND1", "OPERAND2"],
   .ofSlots "operator_or" "|" ["OPERAND1", "OPERAND2"],
   .ofSlots "operator_not" "not" ["OPERAND"],
   .ofSlots "operator_join" "concatenate:with:" ["STRING1", "STRING2"],
   .ofSlots "operator_letter_of" "letter:of:" ["LETTER", "STRING"],
   .ofSlots "operator_length" "stringLength:" ["STRING"],
   .ofSlots "operator_mod" "%" ["NUM1", "NUM2"],
   .ofSlots "operator_round" "rounded" ["NUM"],
   .ofSlots "operator_mathop" "computeFunction:of:" ["OPERATOR", "NUM"]]

/-- Variables and lists. -/
def dataForms : List Form :=
  [.ofSlots "data_variable" "readVariable" ["VARIABLE"],
   .ofSlots "data_setvariableto" "setVar:to:" ["VARIABLE", "VALUE"],
   .ofSlots "data_changevariableby" "changeVar:by:" ["VARIABLE", "VALUE"],
   .ofSlots "data_showvariable" "showVariable:" ["VARIABLE"],
   .ofSlots "data_hidevariable" "hideVariable:" ["VARIABLE"],
   .ofSlots "data_listcontents" "contentsOfList:" ["LIST"],
   .ofSlots "data_addtolist" "append:toList:" ["ITEM", "LIST"],
   .ofSlots "data_deleteoflist" "deleteLine:ofList:" ["INDEX", "LIST"],
   ⟨"data_deletealloflist", "deleteLine:ofList:", [.word "all", .slot "LIST"]⟩,
   .ofSlots "data_insertatlist" "insert:at:ofList:" ["ITEM", "INDEX", "LIST"],
   .ofSlots "data_replaceitemoflist" "setLine:ofList:to:" ["INDEX", "LIST", "ITEM"],
   .ofSlots "data_itemoflist" "getLine:ofList:" ["INDEX", "LIST"],
   .ofSlots "data_lengthoflist" "lineCountOfList:" ["LIST"],
   .ofSlots "data_listcontainsitem" "list:contains:" ["LIST", "ITEM"],
   .ofSlots "data_showlist" "showList:" ["LIST"],
   .ofSlots "data_hidelist" "hideList:" ["LIST"]]

/-- **The whole table.** -/
def forms : List Form :=
  motionForms ++ looksForms ++ soundForms ++ penForms ++ controlForms ++ sensingForms
    ++ operatorForms ++ dataForms

/-- The legacy operation of an opcode, if it has exactly one. -/
def form? (opcode : String) : Option Form := forms.find? (fun f => f.opcode = opcode)

end ScratchLegacy.Legacy
