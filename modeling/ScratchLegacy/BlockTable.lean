import ScratchLegacy.Json.Reader
import ScratchLegacy.Opcode
import ScratchLegacy.Proccode

/-!
# Block tables

The current format stores the blocks of a target flat: a table from ids to
records, in which a record names the block below it (`next`) and the blocks
in its slots by id. Nothing keeps the ids from dangling or from forming
cycles, so a table is an arbitrary graph.

This module reads the records. Reading one never fails: what a record lacks
or has in a wrong form is absent, and whether that matters depends on whether
some script reaches the record.
-/

namespace ScratchLegacy

/-- **What fills a slot of a record**: another block, or a literal. -/
inductive SlotValue where
  | child (id : String)
  | literal (parts : List Json)
deriving Inhabited

/-- **The procedure data of a record.** -/
structure Mutation where
  proccode? : Option String
  argumentIds : List String
  argumentNames : List String
  argumentDefaults : List Json
  warp : Bool
deriving Inhabited

/-- **A record of a block table.** -/
structure BlockRecord where
  opcode? : Option String
  /-- The block below this one. -/
  next? : Option String
  isShadow : Bool
  isTopLevel : Bool
  x : Float
  y : Float
  slots : List (String × SlotValue)
  fields : List (String × List Json)
  mutation? : Option Mutation
deriving Inhabited

/-- **A block table**, in the order of the document. -/
abbrev BlockTable := List (String × BlockRecord)

/-- A list that is stored as JSON text, or in place. Text that is no JSON
array stores the empty list. -/
def encodedList : Option Json → List Json
  | some (.text s) => ((Json.read? s).bind Json.asArray?).getD []
  | some (.array items) => items
  | _ => []

/-- The procedure data that a JSON object stores. -/
def Mutation.ofEntries (entries : List (String × Json)) : Mutation :=
  let part (key : String) : Option Json := Entries.find? key entries
  { proccode? := (part "proccode").bind Json.asText?
    argumentIds := (encodedList (part "argumentids")).map Json.scalarText
    argumentNames := (encodedList (part "argumentnames")).map Json.scalarText
    argumentDefaults := encodedList (part "argumentdefaults")
    warp := Proccode.truth (part "warp") }

/-- What a slot stores, in second place of its array. -/
def SlotValue.ofJson? (slot : Json) : Option SlotValue :=
  match ((Json.items (some slot))[1]? : Option Json) with
  | some (.text id) => some (.child id)
  | some (.array parts) => some (.literal parts)
  | _ => none

namespace BlockRecord

/-- The record that a JSON value stores. -/
def ofJson (v : Json) : BlockRecord :=
  { opcode? := (v.get? "opcode").bind Json.asText?
    next? := (v.get? "next").bind Json.asText?
    isShadow := v.flag "shadow"
    isTopLevel := v.flag "topLevel"
    x := v.floatOr "x" 0
    y := v.floatOr "y" 0
    slots := (Json.entries (v.get? "inputs")).filterMap
      (fun e => (SlotValue.ofJson? e.2).map (fun s => (e.1, s)))
    fields := (Json.entries (v.get? "fields")).map (fun e => (e.1, Json.items (some e.2)))
    mutation? := ((v.get? "mutation").bind Json.asObject?).map Mutation.ofEntries }

/-- Whether a slot takes over the parts of this record instead of holding it
as a block: a shadow with nothing below it. -/
def isInlined (r : BlockRecord) : Bool := r.isShadow && r.next?.isNone

/-- Whether this record heads a script. -/
def isHead (r : BlockRecord) : Bool := r.isTopLevel && !r.isShadow

/-- What a field stands for, given its parts: the value, and for a reference
the id after it. -/
def fieldInput (kind? : Option FieldKind) (parts : List Json) : Input :=
  let value := Json.scalarText? parts.head?
  let ref : DataRef := ⟨Json.scalarText? parts[1]?, value⟩
  match kind? with
  | some .variableRef => .variableRef ref
  | some .listRef => .listRef ref
  | some .broadcastRef => .broadcastRef ref
  | some .number => .number (Scalar.ofLiteral parts.head?)
  | some (.menu kind) => .menu kind value
  | some .text | none => .text value

/-- The inputs that the fields of a record give. An opcode without a known
field gives none. -/
def fieldInputs (r : BlockRecord) (opcode : String) : List (String × Input) :=
  if (Opcode.field? opcode).isSome then
    r.fields.map (fun f => (f.1, fieldInput (Opcode.fieldKind? opcode f.1) f.2))
  else []

end BlockRecord

namespace BlockTable

/-- The table that a JSON object stores. -/
def ofEntries (entries : List (String × Json)) : BlockTable :=
  entries.map (fun e => (e.1, BlockRecord.ofJson e.2))

/-- The record of an id. -/
def record? (t : BlockTable) (id : String) : Option BlockRecord := Entries.find? id t

end BlockTable

/-- **The input that a literal stands for**, given the block and the slot it
is in. The first part is the tag; a literal with an unknown tag and a
malformed color are skipped. A variable or a list in a slot is a reporter
block, with an id made of its owner and its slot. -/
def literalInput? (owner slot : String) (parts : List Json) : Option Input :=
  let payload := parts[1]?
  let ref : DataRef := ⟨Json.scalarText? parts[2]?, Json.scalarText? payload⟩
  let reporter (opcode field : String) (input : Input) : Input :=
    .block { id := owner ++ "-" ++ slot, opcode := opcode, inputs := [(field, input)] }
  match (parts.head?.bind Json.asInt?).bind InputStatus.ofCode? with
  | some .mathNumber | some .positiveNumber | some .wholeNumber | some .integerNumber =>
    some (.number (Scalar.ofLiteral payload))
  | some .angleNumber =>
    some (.angle (match Scalar.ofLiteral payload with
      | .number x => x
      | _ => 0))
  | some .colorPicker => (Color.ofHex? (Json.scalarText? payload)).map Input.color
  | some .text => some (.text (Json.scalarText? payload))
  | some .broadcastName => some (.broadcastRef ref)
  | some .variableReporter => some (reporter "data_variable" "VARIABLE" (.variableRef ref))
  | some .listReporter => some (reporter "data_listcontents" "LIST" (.listRef ref))
  | some .sameBlockShadow | some .blockNoShadow | some .diffBlockShadow | none => none

end ScratchLegacy
