import ScratchLegacy.BlockTable
import ScratchLegacy.Project

/-!
# From block tables to scripts

A script is rebuilt from its head. `BlockTable.follow` lists the ids of a
chain of `next` links up to its end or up to the first id that it meets a
second time. `BlockTable.steps` lists what filling the slots of one block
amounts to: literals to store, chains to grow, and the parts of inlined
shadows, which belong to the block that owns them. `BlockTable.expand` takes
these steps, growing each chain in turn.

A table is an arbitrary graph, so both recursions carry the ids they are
inside of, and a number that counts the ids they are *not* inside of. A block
inside itself is an error; the count reaching zero would mean that every id
of the table is open, so that the next one is open too.
-/

namespace ScratchLegacy

/-- **Why a script cannot be rebuilt.** -/
inductive ScriptError where
  /-- No record has this id. -/
  | missingBlock (id : String)
  /-- The record of this id has no opcode. -/
  | missingOpcode (id : String)
  /-- The block of this id occurs in one of its own slots. -/
  | nestedInItself (id : String)
  /-- The prototype of this id has no procedure data. -/
  | missingMutation (id : String)
  /-- The prototype of this id has no proccode. -/
  | missingProccode (id : String)
deriving DecidableEq, Inhabited

/-- The signature that a prototype declares. -/
def BlockRecord.signature (id : String) (r : BlockRecord) : Except ScriptError Signature :=
  match r.mutation? with
  | none => .error (.missingMutation id)
  | some m =>
    match m.proccode? with
    | none => .error (.missingProccode id)
    | some proccode =>
      .ok { proccode := proccode
            argumentIds := m.argumentIds
            parameters := Proccode.parameters (Proccode.tokens proccode.toList) m.argumentNames
              m.argumentDefaults
            warp := m.warp }

/-- **A step of filling the slots of a block.** -/
inductive Step where
  /-- A slot gets an input. -/
  | fill (slot : String) (input : Input)
  /-- A slot gets the chain that starts at an id. -/
  | grow (slot : String) (statements : Bool) (head : String)
  /-- A chain must be well formed, but its blocks go nowhere. -/
  | inspect (head : String)
  /-- The block gets a signature. -/
  | sign (signature : Signature)
  /-- The slots cannot be filled. -/
  | fail (error : ScriptError)

namespace Step

/-- What is left of a step inside a shadow that was inlined: the signature of
a shadow is not that of its owner. -/
def inherited? : Step → Option Step
  | sign _ => none
  | step => some step

/-- What is left of a step inside a shadow whose slots are dropped: only that
it must not fail. -/
def inspection? : Step → Option Step
  | grow _ _ head => some (inspect head)
  | inspect head => some (inspect head)
  | fail error => some (fail error)
  | fill .. | sign _ => none

/-- **What the owner takes over from an inlined shadow** of this opcode, given
the inputs of its fields and the steps of its own slots: the slots first, then
the fields. Of the menu of pen parameters only the parameter is taken over. -/
def adopt (opcode : String) (fields : List (String × Input)) (inner : List Step) : List Step :=
  if opcode = Opcode.colorParamMenu then
    inner.filterMap inspection?
      ++ ((Entries.find? "colorParam" fields).map (fill "COLOR_PARAM")).toList
  else
    inner.filterMap inherited? ++ fields.map (fun f => fill f.1 f.2)

end Step

namespace BlockTable

/-- The ids of a chain from an id on, up to the first one met before. -/
def followFrom (t : BlockTable) : Nat → List String → String → List String
  | 0, _, _ => []
  | room + 1, met, id =>
    if id ∈ met then []
    else
      match (t.record? id).bind BlockRecord.next? with
      | some next => id :: t.followFrom room (id :: met) next
      | none => [id]

/-- **The ids of a chain**, from its head along the `next` links up to the
end or up to the first repeated id. A dangling id is the last of its
chain. -/
def follow (t : BlockTable) (head : String) : List String :=
  t.followFrom (t.length + 1) [] head

/-- **The steps of filling one slot**, of a block or of an inlined shadow with
this opcode; `inline` gives the steps that an inlined shadow contributes. -/
def slotSteps (t : BlockTable) (inline : String → String → BlockRecord → List Step)
    (owner opcode : String) : String × SlotValue → List Step
  | (slot, .literal parts) => ((literalInput? owner slot parts).map (Step.fill slot)).toList
  | (slot, .child id) =>
    match t.record? id with
    | none => [.fail (.missingBlock id)]
    | some child =>
      if ¬ child.isInlined then [.grow slot (Opcode.isStatementSlot opcode slot) id]
      else
        match child.opcode? with
        | none => [.fail (.missingOpcode id)]
        | some childOpcode =>
          if childOpcode = Opcode.prototype then
            match child.signature id with
            | .ok signature => [.sign signature]
            | .error error => [.fail error]
          else inline id childOpcode child

/-- **The steps of filling the slots of a block**, in the order of its slots.
The first number bounds how many more shadows can be inlined inside one
another, and `trail` lists those that are. -/
def steps (t : BlockTable) : Nat → List String → String → String → BlockRecord → List Step
  | room, trail, owner, opcode, record =>
    record.slots.flatMap <| t.slotSteps (fun id childOpcode child =>
      if id ∈ trail then [.fail (.nestedInItself id)]
      else
        match room with
        | 0 => [.fail (.nestedInItself id)]
        | room + 1 =>
          Step.adopt childOpcode (child.fieldInputs childOpcode)
            (t.steps room (id :: trail) id childOpcode child)) owner opcode

end BlockTable

/-- **A block in the making**: the slots filled so far, and the signature. -/
structure Filling where
  inputs : List (String × Input) := []
  signature : Option Signature := none
deriving Inhabited

namespace Filling

/-- A slot that gets a chain holds a stack if the slot is one for statements
or the chain has more than one block, and otherwise the single block. -/
def grown (f : Filling) (slot : String) (statements : Bool) (chain : List Block) : Filling :=
  match chain with
  | [] => if statements then { f with inputs := SlotMap.insert slot (.stack []) f.inputs } else f
  | [b] =>
    { f with inputs :=
        SlotMap.insert slot (if statements then .stack [b] else .block b) f.inputs }
  | chain => { f with inputs := SlotMap.insert slot (.stack chain) f.inputs }

/-- A filling after a step, where `chainOf` grows the chain of an id. -/
def take (chainOf : String → Except ScriptError (List Block)) (f : Filling) :
    Step → Except ScriptError Filling
  | .fill slot input => .ok { f with inputs := SlotMap.insert slot input f.inputs }
  | .grow slot statements head => (chainOf head).map (f.grown slot statements)
  | .inspect head => (chainOf head).map (fun _ => f)
  | .sign signature => .ok { f with signature := some signature }
  | .fail error => .error error

end Filling

/-- An argument of a call: literal text is read as a numeral where it is
one. -/
def callArgument : Input → Input
  | .text s | .number (.text s) =>
    match Numeral.read? s with
    | some x => .number (.number x)
    | none => .text s
  | input => input

/-- The arguments of a call: for each id in order the input under it, which
is then used up, and `false` where there is none. -/
def callArguments : List String → List (String × Input) → List Input
  | [], _ => []
  | id :: ids, inputs =>
    ((SlotMap.find? id inputs).map callArgument).getD (.boolean false)
      :: callArguments ids (SlotMap.erase id inputs)

/-- **A block of its filled slots**: the fields come last, and a call keeps
nothing but its arguments. -/
def Filling.block (f : Filling) (id opcode : String) (record : BlockRecord) : Block :=
  let inputs := SlotMap.insertAll f.inputs (record.fieldInputs opcode)
  if opcode = Opcode.call then
    let ids := (record.mutation?.map Mutation.argumentIds).getD []
    { id := id
      opcode := opcode
      inputs := [("INPUTS", .arguments (callArguments ids inputs))]
      signature := some
        { proccode := (record.mutation?.bind Mutation.proccode?).getD ""
          argumentIds := ids
          parameters := []
          warp := (record.mutation?.map Mutation.warp).getD false } }
  else { id := id, opcode := opcode, inputs := inputs, signature := f.signature }

namespace BlockTable

/-- **The block of an id**, with everything its slots hold. The number counts
the ids of the table that are not open, and `opened` lists those that are:
the blocks in whose slots this one is. -/
def expand (t : BlockTable) : Nat → List String → String → Except ScriptError Block
  | room, opened, id =>
    match t.record? id with
    | none => .error (.missingBlock id)
    | some record =>
      if id ∈ opened then .error (.nestedInItself id)
      else
        match record.opcode? with
        | none => .error (.missingOpcode id)
        | some opcode =>
          match room with
          | 0 => .error (.nestedInItself id)
          | room + 1 =>
            let chainOf (head : String) : Except ScriptError (List Block) :=
              (t.follow head).mapM (t.expand room (id :: opened))
            ((t.steps t.length [] id opcode record).foldlM (Filling.take chainOf) {}).map
              (fun filling => filling.block id opcode record)

/-- **The blocks of a script**, from its head down. -/
def chain (t : BlockTable) (head : String) : Except ScriptError (List Block) :=
  (t.follow head).mapM (t.expand t.length [])

/-- **The scripts of a table**, in its order. A failure comes with the id of
the script that it is in. -/
def scripts (t : BlockTable) : Except (String × ScriptError) (List Script) :=
  (t.filter (fun e => e.2.isHead)).mapM fun (id, record) =>
    match t.chain id with
    | .ok blocks => .ok ⟨record.x, record.y, blocks⟩
    | .error error => .error (id, error)

end BlockTable

end ScratchLegacy
