import ScratchLegacy.Project

/-!
# Monitors

A document declares the variables and lists of each target, and keeps apart
from them, by id, how they are shown on the stage. A declaration takes these
display fields from the last monitor record with its id, field by field, and
from defaults where the record lacks the field or there is no record.
-/

namespace ScratchLegacy

/-- **How a variable or a list is shown.** -/
structure Monitor where
  visible : Bool := false
  mode : MonitorMode := .normal
  x : Float := 0
  y : Float := 0
  /-- The width of a list; zero is no width. -/
  width : Option Float := none
  /-- The height of a list; zero is no height. -/
  height : Option Float := none
  sliderMin : Float := 0
  sliderMax : Float := 100
  isDiscrete : Bool := true
deriving DecidableEq, Inhabited

namespace Monitor

/-- The number under a key, unless it is zero. -/
def extent? (v : Json) (key : String) : Option Float :=
  ((v.get? key).bind Json.asFloat?).filter (fun x => x != 0)

/-- The monitor that a record describes. -/
def ofJson (v : Json) : Monitor :=
  { visible := v.flag "visible"
    mode := MonitorMode.ofName (((v.get? "mode").bind Json.asText?).getD "")
    x := v.floatOr "x" 0
    y := v.floatOr "y" 0
    width := extent? v "width"
    height := extent? v "height"
    sliderMin := v.floatOr "sliderMin" 0
    sliderMax := v.floatOr "sliderMax" 100
    isDiscrete := ((v.get? "isDiscrete").bind Json.asBool?).getD true }

/-- The last record with an id. -/
def record? (records : List Json) (id : String) : Option Json :=
  (records.filter (fun r => (r.get? "id").bind Json.asText? = some id)).getLast?

/-- **The monitor of an id.** -/
def find (records : List Json) (id : String) : Monitor :=
  ((record? records id).map ofJson).getD {}

end Monitor

/-- **The variables that a target declares**, joined with their monitors. A
declaration that is no array is skipped. -/
def Variable.ofDeclarations (records : List Json) (declarations : List (String × Json)) :
    List Variable :=
  declarations.filterMap fun (id, declaration) =>
    declaration.asArray?.map fun parts =>
      let monitor := Monitor.find records id
      { id := id
        name := Json.scalarText? parts.head?
        value := (parts[1]?.map Scalar.ofJson).getD (.number 0)
        cloud := (parts[2]?.bind Json.asBool?).getD false
        visible := monitor.visible
        mode := monitor.mode
        x := monitor.x
        y := monitor.y
        sliderMin := monitor.sliderMin
        sliderMax := monitor.sliderMax
        isDiscrete := monitor.isDiscrete }

/-- **The lists that a target declares**, joined with their monitors. A
declaration that is no array is skipped. -/
def ItemList.ofDeclarations (records : List Json) (declarations : List (String × Json)) :
    List ItemList :=
  declarations.filterMap fun (id, declaration) =>
    declaration.asArray?.map fun parts =>
      let monitor := Monitor.find records id
      { id := id
        name := Json.scalarText? parts.head?
        items := (Json.items parts[1]?).map Scalar.ofJson
        visible := monitor.visible
        x := monitor.x
        y := monitor.y
        width := monitor.width
        height := monitor.height }

end ScratchLegacy
