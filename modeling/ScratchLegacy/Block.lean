import ScratchLegacy.Color
import ScratchLegacy.Scalar
import ScratchLegacy.SlotMap

/-!
# Blocks

A block has an opcode and named slots, and what fills a slot may be a block
or a whole stack of blocks, so the blocks of a script form a tree.

`Block.visit` lists the blocks of that tree, the owner before what it holds
and the slots in the order of their names; `Block.references` collects the
variables and lists that the slots of a visited block name.
-/

namespace ScratchLegacy

/-- **A reference to a variable, a list or a broadcast**, by id; the name is
what the legacy format writes. -/
structure DataRef where
  id : String
  name : String
deriving DecidableEq, Inhabited

/-- **A piece of a procedure's signature**: words of its label, or a
parameter with its default. -/
inductive Parameter where
  | label (text : String)
  | value (name : String) (default : Scalar)
  | boolean (name : String) (default : Bool)
deriving DecidableEq, Inhabited

/-- **What a procedure block says about its procedure.** A definition holds
the whole signature; a call holds the ids of its arguments and no
parameters. -/
structure Signature where
  /-- The label of the procedure with its placeholders, which names it. -/
  proccode : String
  /-- The ids of the arguments, in the order of the placeholders. -/
  argumentIds : List String
  /-- The label and the parameters, in order. -/
  parameters : List Parameter
  /-- Whether the procedure runs without redrawing the screen. -/
  warp : Bool
deriving DecidableEq, Inhabited

mutual

/-- **What fills a slot of a block.** -/
inductive Input where
  | number (value : Scalar)
  | angle (degrees : Float)
  | color (value : Color)
  | text (value : String)
  | boolean (value : Bool)
  | broadcastRef (ref : DataRef)
  | variableRef (ref : DataRef)
  | listRef (ref : DataRef)
  /-- A choice from the menu of this kind. -/
  | menu (kind choice : String)
  /-- An expression, or a single statement. -/
  | block (block : Block)
  /-- A stack of statements. -/
  | stack (blocks : List Block)
  /-- The arguments of a procedure call, in order. -/
  | arguments (values : List Input)

/-- **A block**, with its slots sorted by name. -/
structure Block where
  id : String
  opcode : String
  inputs : List (String × Input) := []
  /-- The signature, of a procedure block only. -/
  signature : Option Signature := none

end

deriving instance Inhabited for Input
deriving instance Inhabited for Block

namespace Input

/-- The text an input shows: a text, a choice, the text of a number slot, or
the name of what it refers to. -/
def shownText? : Input → Option String
  | text s => some s
  | menu _ choice => some choice
  | number value => value.asText?
  | broadcastRef r | variableRef r | listRef r => some r.name
  | _ => none

/-- The variable or list an input refers to. -/
def dataRef? : Input → Option DataRef
  | variableRef r | listRef r => some r
  | _ => none

end Input

namespace Block

/-- What fills a slot. -/
def input? (b : Block) (slot : String) : Option Input := SlotMap.find? slot b.inputs

/-- The proccode of a procedure block. -/
def proccode? (b : Block) : Option String := b.signature.map Signature.proccode

mutual

/-- **The blocks of a tree**, each before the blocks its slots hold. -/
def visit : Block → List Block
  | ⟨id, opcode, inputs, signature⟩ => ⟨id, opcode, inputs, signature⟩ :: visitSlots inputs

/-- The blocks that a list of slots holds. -/
def visitSlots : List (String × Input) → List Block
  | [] => []
  | (_, input) :: rest => visitInput input ++ visitSlots rest

/-- The blocks that an input holds. -/
def visitInput : Input → List Block
  | .block b => visit b
  | .stack bs => visitAll bs
  | .arguments values => visitInputs values
  | _ => []

/-- The blocks of a stack. -/
def visitAll : List Block → List Block
  | [] => []
  | b :: rest => visit b ++ visitAll rest

/-- The blocks that a list of arguments holds. -/
def visitInputs : List Input → List Block
  | [] => []
  | v :: rest => visitInput v ++ visitInputs rest

end

/-- The variables and lists that the slots of one block name. -/
def slotReferences (b : Block) : List String :=
  b.inputs.filterMap (fun slot => slot.2.dataRef?.map DataRef.id)

/-- The ids of the variables and lists that the blocks of a tree name in
their slots. -/
def references (b : Block) : List String := b.visit.flatMap slotReferences

/-- Visiting a stack visits its blocks one after the other. -/
theorem visitAll_eq_flatMap (bs : List Block) : visitAll bs = bs.flatMap visit := by
  induction bs with
  | nil => rfl
  | cons b rest ih => simp [visitAll, ih]

/-- A block is the first of the blocks visited from it. -/
theorem head?_visit (b : Block) : b.visit.head? = some b := by
  cases b
  rfl

end Block

end ScratchLegacy
