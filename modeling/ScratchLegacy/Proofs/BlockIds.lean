import ScratchLegacy.Liveness
import ScratchLegacy.Proofs.ScriptGrowth
import ScratchLegacy.Proofs.Sequences

/-!
# The ids of blocks

A block keeps the id that it has in the block table. `Block.mapIds g` is a tree with
other ids, where `g` gives the new one from the opcode of a block and its old one. The
slots are filled as before, so a tree with other ids names the same variables and lists
(`Target.references_mapIds`), and a block that is made of its slots is made with other
ids just as well (`Filling.mapIds_block`).

Not every id matters. `Block.Renames f` compares two blocks by the ids of their item
numbers alone, those of one renamed by `f`, and so it says nothing of the ids that are
made up for the variables and lists in slots.
-/

namespace ScratchLegacy

/-! ## Trees with other ids -/

mutual

/-- **A block with other ids**, in all of its tree. -/
def Block.mapIds (g : String → String → String) : Block → Block
  | ⟨id, opcode, inputs, signature⟩ => ⟨g opcode id, opcode, mapSlotIds g inputs, signature⟩

/-- Slots with other ids. -/
def mapSlotIds (g : String → String → String) : List (String × Input) → List (String × Input)
  | [] => []
  | (slot, input) :: rest => (slot, Input.mapIds g input) :: mapSlotIds g rest

/-- An input with other ids. -/
def Input.mapIds (g : String → String → String) : Input → Input
  | .block b => .block (Block.mapIds g b)
  | .stack blocks => .stack (mapStackIds g blocks)
  | .arguments values => .arguments (mapArgumentIds g values)
  | input => input

/-- The blocks of a stack with other ids. -/
def mapStackIds (g : String → String → String) : List Block → List Block
  | [] => []
  | b :: rest => Block.mapIds g b :: mapStackIds g rest

/-- The arguments of a call with other ids. -/
def mapArgumentIds (g : String → String → String) : List Input → List Input
  | [] => []
  | v :: rest => Input.mapIds g v :: mapArgumentIds g rest

end

/-- The blocks of a script with other ids. -/
def Script.mapIds (g : String → String → String) (s : Script) : Script :=
  { s with blocks := s.blocks.map (Block.mapIds g) }

/-- A target with other ids in its scripts. -/
def Target.mapIds (g : String → String → String) (t : Target) : Target :=
  { t with scripts := t.scripts.map (Script.mapIds g) }

variable (g : String → String → String)

/-- Slots get other ids one by one. -/
theorem mapSlotIds_eq_map (inputs : List (String × Input)) :
    mapSlotIds g inputs = inputs.map (fun e => (e.1, e.2.mapIds g)) := by
  induction inputs with
  | nil => rfl
  | cons e rest ih => exact congrArg ((e.1, e.2.mapIds g) :: ·) ih

/-- The blocks of a stack get other ids one by one. -/
theorem mapStackIds_eq_map (blocks : List Block) :
    mapStackIds g blocks = blocks.map (Block.mapIds g) := by
  induction blocks with
  | nil => rfl
  | cons b rest ih => exact congrArg (b.mapIds g :: ·) ih

/-- Arguments get other ids one by one. -/
theorem mapArgumentIds_eq_map (values : List Input) :
    mapArgumentIds g values = values.map (Input.mapIds g) := by
  induction values with
  | nil => rfl
  | cons v rest ih => exact congrArg (v.mapIds g :: ·) ih

/-- A block with other ids, from its fields. -/
theorem Block.mapIds_mk (id opcode : String) (inputs : List (String × Input))
    (signature : Option Signature) :
    Block.mapIds g ⟨id, opcode, inputs, signature⟩
      = ⟨g opcode id, opcode, inputs.map (fun e => (e.1, e.2.mapIds g)), signature⟩ :=
  congrArg (Block.mk (g opcode id) opcode · signature) (mapSlotIds_eq_map g inputs)

theorem Input.mapIds_block (b : Block) : (Input.block b).mapIds g = .block (b.mapIds g) := rfl

/-- A stack with other ids, block by block. -/
theorem Input.mapIds_stack (blocks : List Block) :
    (Input.stack blocks).mapIds g = .stack (blocks.map (Block.mapIds g)) :=
  congrArg Input.stack (mapStackIds_eq_map g blocks)

/-- The arguments of a call with other ids, one by one. -/
theorem Input.mapIds_arguments (values : List Input) :
    (Input.arguments values).mapIds g = .arguments (values.map (Input.mapIds g)) :=
  congrArg Input.arguments (mapArgumentIds_eq_map g values)

/-- Flat inputs have no ids of blocks. -/
theorem Input.mapIds_of_isFlat {input : Input} (h : input.IsFlat) : input.mapIds g = input := by
  cases input with
  | block _ | stack _ | arguments _ => exact h.elim
  | _ => rfl

/-- An input shows the same text. -/
@[simp] theorem Input.shownText?_mapIds (input : Input) :
    (input.mapIds g).shownText? = input.shownText? := by
  cases input <;> rfl

/-- An input refers to the same data. -/
@[simp] theorem Input.dataRef?_mapIds (input : Input) :
    (input.mapIds g).dataRef? = input.dataRef? := by
  cases input <;> rfl

namespace Block

@[simp] theorem id_mapIds (b : Block) : (b.mapIds g).id = g b.opcode b.id := by
  cases b
  rfl

@[simp] theorem opcode_mapIds (b : Block) : (b.mapIds g).opcode = b.opcode := by
  cases b
  rfl

@[simp] theorem signature_mapIds (b : Block) : (b.mapIds g).signature = b.signature := by
  cases b
  rfl

@[simp] theorem proccode?_mapIds (b : Block) : (b.mapIds g).proccode? = b.proccode? := by
  cases b
  rfl

theorem inputs_mapIds (b : Block) :
    (b.mapIds g).inputs = b.inputs.map (fun e => (e.1, e.2.mapIds g)) := by
  cases b
  exact mapSlotIds_eq_map g _

/-- What fills a slot has other ids. -/
@[simp] theorem input?_mapIds (b : Block) (slot : String) :
    (b.mapIds g).input? slot = (b.input? slot).map (Input.mapIds g) := by
  rw [input?, inputs_mapIds, SlotMap.find?_map, input?]

/-- **Other ids twice** are other ids once. -/
theorem mapIds_mapIds (h : String → String → String) (b : Block) :
    (b.mapIds g).mapIds h = b.mapIds (fun opcode id => h opcode (g opcode id)) := by
  refine Hereditary.forall_block
    (P := fun b => (b.mapIds g).mapIds h = b.mapIds (fun opcode id => h opcode (g opcode id)))
    (Q := fun v => (v.mapIds g).mapIds h = v.mapIds (fun opcode id => h opcode (g opcode id))) ?_ b
  refine ⟨fun b ih => ?_, fun input hflat => ?_, fun b ih => ?_, fun blocks ih => ?_,
    fun values ih => ?_⟩
  · obtain ⟨id, opcode, inputs, signature⟩ := b
    simp only [mapIds_mk, List.map_map]
    congr 1
    exact List.map_congr_left (fun e he => Prod.ext rfl (ih e he))
  · simp only [Input.mapIds_of_isFlat _ hflat]
  · exact congrArg Input.block ih
  · simp only [Input.mapIds_stack, List.map_map]
    exact congrArg Input.stack (List.map_congr_left ih)
  · simp only [Input.mapIds_arguments, List.map_map]
    exact congrArg Input.arguments (List.map_congr_left ih)

/-- **Only the ids of the blocks in the tree count.** -/
theorem mapIds_congr {g h : String → String → String} {b : Block}
    (heq : ∀ c ∈ b.visit, g c.opcode c.id = h c.opcode c.id) : b.mapIds g = b.mapIds h := by
  refine Hereditary.forall_block
    (P := fun b => (∀ c ∈ b.visit, g c.opcode c.id = h c.opcode c.id) → b.mapIds g = b.mapIds h)
    (Q := fun v => (∀ c ∈ visitInput v, g c.opcode c.id = h c.opcode c.id) →
      v.mapIds g = v.mapIds h) ?_ b heq
  refine ⟨fun b ih heq => ?_, fun input hflat _ => ?_, fun b ih heq => ?_, fun blocks ih heq => ?_,
    fun values ih heq => ?_⟩
  · rw [visit_eq_cons, List.forall_mem_cons, visitSlots_eq_flatMap, List.forall_mem_flatMap] at heq
    obtain ⟨id, opcode, inputs, signature⟩ := b
    rw [mapIds_mk, mapIds_mk, heq.1]
    congr 1
    exact List.map_congr_left (fun e he => Prod.ext rfl (ih e he (heq.2 e he)))
  · rw [Input.mapIds_of_isFlat _ hflat, Input.mapIds_of_isFlat _ hflat]
  · exact congrArg Input.block (ih heq)
  · rw [visitInput, visitAll_eq_flatMap, List.forall_mem_flatMap] at heq
    rw [Input.mapIds_stack, Input.mapIds_stack]
    exact congrArg Input.stack (List.map_congr_left (fun b hb => ih b hb (heq b hb)))
  · rw [visitInput, visitInputs_eq_flatMap, List.forall_mem_flatMap] at heq
    rw [Input.mapIds_arguments, Input.mapIds_arguments]
    exact congrArg Input.arguments (List.map_congr_left (fun v hv => ih v hv (heq v hv)))

/-- **The blocks of a tree with other ids** are those of the tree, with other ids. -/
theorem visit_mapIds (b : Block) : (b.mapIds g).visit = b.visit.map (mapIds g) := by
  refine Hereditary.forall_block (P := fun b => (b.mapIds g).visit = b.visit.map (mapIds g))
    (Q := fun v => visitInput (v.mapIds g) = (visitInput v).map (mapIds g)) ?_ b
  refine ⟨fun b ih => ?_, fun input hflat => ?_, fun b ih => ?_, fun blocks ih => ?_,
    fun values ih => ?_⟩
  · rw [visit_eq_cons, visit_eq_cons, inputs_mapIds, visitSlots_eq_flatMap, visitSlots_eq_flatMap,
      List.flatMap_map, List.map_cons, List.map_flatMap]
    exact congrArg _ (List.flatMap_congr ih)
  · rw [Input.mapIds_of_isFlat _ hflat, visitInput_of_isFlat hflat, List.map_nil]
  · rw [Input.mapIds_block, visitInput, visitInput, ih]
  · rw [Input.mapIds_stack, visitInput, visitInput, visitAll_eq_flatMap, visitAll_eq_flatMap,
      List.flatMap_map, List.map_flatMap]
    exact List.flatMap_congr ih
  · rw [Input.mapIds_arguments, visitInput, visitInput, visitInputs_eq_flatMap,
      visitInputs_eq_flatMap, List.flatMap_map, List.map_flatMap]
    exact List.flatMap_congr ih

/-- A block with other ids names the same data. -/
@[simp] theorem slotReferences_mapIds (b : Block) :
    (b.mapIds g).slotReferences = b.slotReferences := by
  simp only [slotReferences, inputs_mapIds, List.filterMap_map, Function.comp_def,
    Input.dataRef?_mapIds]

end Block

/-- Other ids twice are other ids once, in a script. -/
theorem Script.mapIds_mapIds (h : String → String → String) (s : Script) :
    (s.mapIds g).mapIds h = s.mapIds (fun opcode id => h opcode (g opcode id)) := by
  simp only [mapIds, List.map_map, Function.comp_def, Block.mapIds_mapIds]

namespace Target

/-- **A target with other ids names the same data.** -/
@[simp] theorem references_mapIds (t : Target) : (t.mapIds g).references = t.references := by
  simp only [references, blocks, mapIds, Script.mapIds, List.flatMap_map, List.flatMap_assoc,
    Block.visit_mapIds, Block.slotReferences_mapIds]

/-- A target with other ids has the same definitions, with other ids. -/
theorem definition?_mapIds (t : Target) (proccode : String) :
    (t.mapIds g).definition? proccode = (t.definition? proccode).map (Block.mapIds g) := by
  have hheads : (t.mapIds g).scripts.filterMap Script.head?
      = (t.scripts.filterMap Script.head?).map (Block.mapIds g) := by
    rw [mapIds, List.filterMap_map, List.map_filterMap]
    refine List.filterMap_congr (fun s _ => ?_)
    exact List.head?_map
  rw [definition?, hheads, List.find?_map, definition?]
  simp only [Function.comp_def, Block.opcode_mapIds, Block.proccode?_mapIds]

end Target

/-! ## Blocks in the making -/

/-- The inputs of fields have no ids of blocks. -/
theorem BlockRecord.mapSlotIds_fieldInputs (r : BlockRecord) (opcode : String) :
    mapSlotIds g (r.fieldInputs opcode) = r.fieldInputs opcode := by
  rw [mapSlotIds_eq_map]
  conv_rhs => rw [← List.map_id (r.fieldInputs opcode)]
  refine List.map_congr_left (fun e he => ?_)
  rw [Input.mapIds_of_isFlat g (isFlat_of_mem_fieldInputs he)]
  rfl

/-- A block in the making with other ids. -/
def Filling.mapIds (g : String → String → String) (x : Filling) : Filling :=
  { x with inputs := mapSlotIds g x.inputs }

/-- A filled slot with other ids. -/
theorem mapSlotIds_insert (slot : String) (v : Input) (inputs : List (String × Input)) :
    mapSlotIds g (SlotMap.insert slot v inputs)
      = SlotMap.insert slot (v.mapIds g) (mapSlotIds g inputs) := by
  rw [mapSlotIds_eq_map, mapSlotIds_eq_map, SlotMap.insert_map]

/-- An argument of a call with other ids. -/
theorem callArgument_mapIds (v : Input) :
    callArgument (v.mapIds g) = (callArgument v).mapIds g := by
  cases v with
  | text s =>
    show callArgument (.text s) = _
    simp only [callArgument]
    cases Numeral.read? s <;> rfl
  | number value =>
    cases value with
    | text s =>
      show callArgument (.number (.text s)) = _
      simp only [callArgument]
      cases Numeral.read? s <;> rfl
    | _ => rfl
  | _ => rfl

/-- The arguments of a call with other ids. -/
theorem callArguments_mapIds (ids : List String) (inputs : List (String × Input)) :
    callArguments ids (mapSlotIds g inputs) = mapArgumentIds g (callArguments ids inputs) := by
  induction ids generalizing inputs with
  | nil => rfl
  | cons id ids ih =>
    have herase : SlotMap.erase id (mapSlotIds g inputs) = mapSlotIds g (SlotMap.erase id inputs) := by
      rw [mapSlotIds_eq_map, mapSlotIds_eq_map, SlotMap.erase_map]
    rw [callArguments, callArguments, herase, ih, mapArgumentIds, mapSlotIds_eq_map,
      SlotMap.find?_map]
    cases SlotMap.find? id inputs with
    | none => rfl
    | some v => exact congrArg (· :: _) (callArgument_mapIds g v)

namespace Filling

/-- A slot that gets a chain with other ids. -/
theorem mapIds_grown (x : Filling) (slot : String) (statements : Bool) (blocks : List Block) :
    (x.grown slot statements blocks).mapIds g
      = (x.mapIds g).grown slot statements (blocks.map (Block.mapIds g)) := by
  match blocks with
  | [] => cases statements <;> simp [grown, mapIds, mapSlotIds_insert, Input.mapIds_stack]
  | [b] =>
    cases statements
    · simp [grown, mapIds, mapSlotIds_insert, Input.mapIds_block]
    · simp [grown, mapIds, mapSlotIds_insert, Input.mapIds_stack]
  | b :: c :: rest => simp [grown, mapIds, mapSlotIds_insert, Input.mapIds_stack]

/-- **A block of its filled slots with other ids.** -/
theorem mapIds_block (x : Filling) (id opcode : String) (record : BlockRecord) :
    (x.block id opcode record).mapIds g = (x.mapIds g).block (g opcode id) opcode record := by
  have hinputs : mapSlotIds g (SlotMap.insertAll x.inputs (record.fieldInputs opcode))
      = SlotMap.insertAll (mapSlotIds g x.inputs) (record.fieldInputs opcode) := by
    conv_rhs => rw [← record.mapSlotIds_fieldInputs g opcode]
    simp only [mapSlotIds_eq_map, SlotMap.insertAll_map]
  unfold block
  dsimp only [mapIds]
  rw [← hinputs]
  split
  · rw [Block.mapIds, mapSlotIds, mapSlotIds, Input.mapIds, callArguments_mapIds]
  · rw [Block.mapIds]

end Filling

/-! ## The ids of item numbers -/

/-- The ids of item numbers under a renaming, without the other ids. -/
def itemIds (f : String → String) (opcode id : String) : String :=
  if opcode = Opcode.itemNumber then f id else ""

/-- The ids of item numbers, without the other ids. -/
def keptIds : String → String → String := itemIds id

/-- **Blocks that are the same but for their ids**, where the item numbers have
theirs renamed. -/
def Block.Renames (f : String → String) (b b' : Block) : Prop :=
  b'.mapIds keptIds = b.mapIds (itemIds f)

/-- Inputs that are the same but for the ids of blocks. -/
def Input.Renames (f : String → String) (v v' : Input) : Prop :=
  v'.mapIds keptIds = v.mapIds (itemIds f)

/-- **Scripts that are the same but for the ids of blocks.** -/
def Script.Renames (f : String → String) (s s' : Script) : Prop :=
  s'.mapIds keptIds = s.mapIds (itemIds f)

/-- **A target whose item numbers have other ids.** -/
def Target.renameItemNumbers (f : String → String) (t : Target) : Target :=
  t.mapIds (fun opcode id => if opcode = Opcode.itemNumber then f id else id)

section Renames

variable {f : String → String} {t t' : Target}
  (h : List.Forall₂ (Script.Renames f) t.scripts t'.scripts)

include h

/-- Scripts that are the same but for the ids of blocks name the same data. -/
theorem Target.references_of_renames : t'.references = t.references := by
  rw [← references_mapIds keptIds t', ← references_mapIds (itemIds f) t]
  unfold references blocks mapIds
  rw [map_eq_of_forall₂ h]

/-- **Scripts that are the same but for the ids of blocks** have the ids of item numbers
that renaming them gives. -/
theorem Target.mapIds_keptIds_of_renames :
    (t'.mapIds keptIds).scripts = ((t.renameItemNumbers f).mapIds keptIds).scripts := by
  show t'.scripts.map _ = (t.scripts.map _).map _
  rw [map_eq_of_forall₂ h, List.map_map]
  refine List.map_congr_left (fun s _ => ?_)
  rw [Function.comp_apply, Script.mapIds_mapIds]
  refine congrArg (fun g => s.mapIds g) (funext fun opcode => funext fun id => ?_)
  unfold keptIds itemIds
  split <;> rfl

end Renames

end ScratchLegacy
