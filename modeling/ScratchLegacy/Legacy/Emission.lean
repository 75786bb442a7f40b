import ScratchLegacy.Legacy.Vocabulary
import ScratchLegacy.Opcode
import ScratchLegacy.Proccode
import ScratchLegacy.Project

/-!
# Emission of scripts

Translating a block yields a token, and sometimes more: the legacy format has
no reporter for the position of an item in a list, so such a reporter becomes
the reading of an *index variable*, and a hidden procedure that computes the
variable has to be called before the statement in which it is read.

`Emitted` carries the three results together. The calls wait in `before`
until the statement they belong to takes its place in a stack, where they go
right in front of it; the hidden procedures wait in `helpers` until the script
is complete, and follow it as scripts of their own.

The translation is a fold over the tree of blocks. What fills a slot is
translated once into a `Reading`, which holds it as an expression and as a
stack, and the opcode decides which of the two is used.
-/

namespace ScratchLegacy.Legacy

/-- **The result of a translation.** -/
structure Emitted (α : Type) where
  value : α
  /-- The statements that have to run before the value is used. -/
  before : List Token := []
  /-- The scripts that have to be added to the target. -/
  helpers : List Script := []
deriving Inhabited

namespace Emitted

variable {α β : Type}

/-- A result changed by a function, with what comes before it and beside it
kept. -/
def map (f : α → β) (e : Emitted α) : Emitted β := ⟨f e.value, e.before, e.helpers⟩

/-- Several results as one, in order. -/
def all (es : List (Emitted α)) : Emitted (List α) :=
  ⟨es.map value, es.flatMap before, es.flatMap helpers⟩

/-- **A stack of statements**: what has to run before a statement goes right
in front of it, so nothing has to run before the stack. -/
def stack (es : List (Emitted Token)) : Emitted (List Token) :=
  ⟨es.flatMap (fun e => e.before ++ [e.value]), [], es.flatMap helpers⟩

end Emitted

/-- **What fills a slot**, translated. -/
structure Reading where
  /-- It as an expression. -/
  expression : Emitted Token
  /-- It as a stack of statements. -/
  body : Emitted Token
  /-- The arguments one by one, where it is those of a call. -/
  arguments : Option (List (Emitted Token)) := none
deriving Inhabited

/-- What reads the same as an expression and as a body. -/
def Reading.same (e : Emitted Token) : Reading := ⟨e, e, none⟩

/-- **The index variable** of the reporter with an id. -/
def indexVariable (id : String) : String := "Index " ++ id

/-- The spec of the hidden procedure that computes an index variable. -/
def indexSpec (id : String) : String := "calculate " ++ indexVariable id

/-- **The hidden procedure** that scans a list for an item: it counts the
index variable up from one until it stands at an equal entry or behind the
end. -/
def indexProcedure (id : String) (list item : Token) : Script :=
  let name := Token.text (indexVariable id)
  let index := Token.op "readVariable" [name]
  { x := 0
    y := 0
    statements :=
      [.op "procDef" [.text (indexSpec id), .list [], .list [], .bool true],
       .op "setVar:to:" [name, .nat 1],
       .op "doUntil"
         [.op "|"
           [.op "=" [.op "getLine:ofList:" [index, list], item],
            .op ">" [index, .op "lineCountOfList:" [list]]],
          .stack [.op "changeVar:by:" [name, .nat 1]]]] }

/-- **The item number of a list**: the reading of the index variable, with
the call of the hidden procedure before it and the procedure beside it. The
parts of the reporter are computed first. -/
def emitItemNumber (id : String) (list item : Emitted Token) : Emitted Token :=
  { value := .op "readVariable" [.text (indexVariable id)]
    before := list.before ++ item.before ++ [.op "call" [.text (indexSpec id)]]
    helpers := list.helpers ++ item.helpers ++ [indexProcedure id list.value item.value] }

/-- The names and the defaults that a definition declares for its
parameters. A parameter that is no boolean has the empty default. -/
def declared : List Parameter → List (String × Token)
  | [] => []
  | .label _ :: rest => declared rest
  | .value name _ :: rest => (name, .text "") :: declared rest
  | .boolean name _ :: rest => (name, .bool false) :: declared rest

/-- **The head of a procedure's script.** -/
def emitDefinition : Option Signature → Token
  | none => .op "procDef" [.text "", .list [], .list [], .bool false]
  | some s =>
    let parameters := declared s.parameters
    .op "procDef"
      [.text (Proccode.spec s.parameters), .list (parameters.map (fun p => .text p.1)),
       .list (parameters.map Prod.snd), .bool s.warp]

/-- The number of layers to go back, for a block that goes forward: the
negated number, or the negation of the expression. -/
def backward : Token → Token
  | .value (.number n) => .number (-n.toFloat)
  | layers => .op "-" [.nat 0, layers]

/-- What a reading of the slots of a block gives for a slot. -/
def slotReading (readings : List (String × Reading)) (slot : String) : Reading :=
  (Entries.find? slot readings).getD (.same ⟨.null, [], []⟩)

/-- An argument of an operation, from the readings of the slots. -/
def Argument.emit (readings : List (String × Reading)) : Argument → Emitted Token
  | .slot name => (slotReading readings name).expression
  | .body name => (slotReading readings name).body
  | .word text => ⟨.text text, [], []⟩

/-- The text that a slot of a block shows. -/
def shownText (b : Block) (slot : String) : String :=
  ((b.input? slot).bind Input.shownText?).getD ""

/-- **The token of a block**, from the readings of its slots; `specOf` gives
the legacy spec of a proccode. -/
def emitBlockOf (specOf : String → String) (b : Block) (readings : List (String × Reading)) :
    Emitted Token :=
  let plain (name : String) (arguments : List Token) : Emitted Token := ⟨.op name arguments, [], []⟩
  match b.opcode with
  | "looks_gotofrontback" =>
    if shownText b "FRONT_BACK" = "front" then plain "comeToFront" []
    else plain "goBackByLayers:" [.op "/" [.nat 1, .nat 0]]
  | "looks_goforwardbackwardlayers" =>
    (slotReading readings "NUM").expression.map fun layers =>
      if shownText b "FORWARD_BACKWARD" = "forward" then .op "goBackByLayers:" [backward layers]
      else .op "goBackByLayers:" [layers]
  | "looks_costumenumbername" =>
    plain (if shownText b "NUMBER_NAME" = "number" then "costumeIndex" else "costumeName") []
  | "looks_backdropnumbername" =>
    plain (if shownText b "NUMBER_NAME" = "number" then "backgroundIndex" else "sceneName") []
  | "argument_reporter_string_number" => plain "getParam" [.text (shownText b "VALUE"), .text "r"]
  | "argument_reporter_boolean" => plain "getParam" [.text (shownText b "VALUE"), .text "b"]
  | "data_itemnumoflist" =>
    emitItemNumber b.id (slotReading readings "LIST").expression
      (slotReading readings "ITEM").expression
  | "procedures_definition" => ⟨emitDefinition b.signature, [], []⟩
  | "procedures_call" =>
    let arguments := ((slotReading readings "INPUTS").arguments).getD []
    (Emitted.all arguments).map fun values =>
      .op "call" (.text (specOf (b.proccode?.getD "")) :: values)
  | opcode =>
    match form? opcode with
    | some form =>
      (Emitted.all (form.arguments.map (Argument.emit readings))).map (.op form.operation)
    | none => plain "undefined" [.text opcode]

mutual

/-- **The translation of a block.** -/
def emitBlock (specOf : String → String) : Block → Emitted Token
  | ⟨id, opcode, inputs, signature⟩ =>
    emitBlockOf specOf ⟨id, opcode, inputs, signature⟩ (readSlots specOf inputs)

/-- The translations of what fills the slots of a block. -/
def readSlots (specOf : String → String) : List (String × Input) → List (String × Reading)
  | [] => []
  | (slot, input) :: rest => (slot, readInput specOf input) :: readSlots specOf rest

/-- The translation of what fills a slot. -/
def readInput (specOf : String → String) : Input → Reading
  | .number value => .same ⟨.value value.toJson, [], []⟩
  | .angle degrees => .same ⟨.number degrees, [], []⟩
  | .color c => .same ⟨.nat c.packed, [], []⟩
  | .text s => .same ⟨.text s, [], []⟩
  | .boolean b => .same ⟨.bool b, [], []⟩
  | .broadcastRef r | .variableRef r | .listRef r => .same ⟨.text r.name, [], []⟩
  | .menu _ choice => .same ⟨.text choice, [], []⟩
  | .block b =>
    let e := emitBlock specOf b
    ⟨e, (Emitted.stack [e]).map .stack, none⟩
  | .stack blocks => .same ((Emitted.stack (emitAll specOf blocks)).map .stack)
  | .arguments values =>
    let es := expressions specOf values
    let e := (Emitted.all es).map .list
    ⟨e, e, some es⟩

/-- The translations of the blocks of a stack. -/
def emitAll (specOf : String → String) : List Block → List (Emitted Token)
  | [] => []
  | b :: rest => emitBlock specOf b :: emitAll specOf rest

/-- The translations of arguments, as expressions. -/
def expressions (specOf : String → String) : List Input → List (Emitted Token)
  | [] => []
  | v :: rest => (readInput specOf v).expression :: expressions specOf rest

end

/-- **The legacy spec of a proccode in a target**: that of the definition of
the procedure, and the empty spec where there is none. -/
def specOf (target : Target) (proccode : String) : String :=
  (((target.definition? proccode).bind Block.signature).map
    (fun s => Proccode.spec s.parameters)).getD ""

/-- The translation of a script, with the procedures it needs after it. -/
def emitScript (specOf : String → String) (s : ScratchLegacy.Script) : List Script :=
  let e := Emitted.stack (emitAll specOf s.blocks)
  ⟨s.x, s.y, e.value⟩ :: e.helpers

/-- **The legacy scripts of a target.** -/
def emitScripts (target : Target) : List Script :=
  target.scripts.flatMap (emitScript (specOf target))

end ScratchLegacy.Legacy
