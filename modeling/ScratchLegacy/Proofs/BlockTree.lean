import ScratchLegacy.Block

/-!
# Blocks inside blocks

`Block.visit` lists the blocks of a tree by going through the slots one after
the other. `Block.Within` says which blocks a tree has without listing them:
a block is within itself, and within every block one of whose slots holds a
block that it is within. What a slot holds may be a single block, a stack, or
the arguments of a call, and arguments hold what each of them holds
(`Input.Holds`).

The two agree (`Block.mem_visit_iff`): the visit reaches every block of the
tree, however its slots are nested, and nothing else.

Blocks and what fills their slots are nested in each other through lists, so
an induction over them is one over both. `Block.Hereditary` names what such an
induction needs, and `Block.Hereditary.forall_block` is the induction.
-/

namespace ScratchLegacy

/-- **A block that an input holds** at its top: the block itself, a statement
of the stack, or what one of the arguments holds. -/
inductive Input.Holds : Input → Block → Prop where
  | block (b : Block) : Input.Holds (.block b) b
  | stack {bs : List Block} {b : Block} (mem : b ∈ bs) : Input.Holds (.stack bs) b
  | arguments {values : List Input} {value : Input} {b : Block} (mem : value ∈ values)
      (holds : Input.Holds value b) : Input.Holds (.arguments values) b

namespace Block

/-- **A block that is within another**, at any depth. -/
inductive Within (b : Block) : Block → Prop where
  /-- A block is within itself. -/
  | self : Within b b
  /-- A block is within the owner of a slot when it is within a block that
  the slot holds. -/
  | slot {root child : Block} {slot : String} {input : Input}
      (mem : (slot, input) ∈ root.inputs) (holds : input.Holds child)
      (within : Within b child) : Within b root

end Block

/-! ## Induction over the tree -/

/-- An input that holds no block and no other input. -/
def Input.IsFlat : Input → Prop
  | .block _ | .stack _ | .arguments _ => False
  | _ => True

/-- **A property of blocks and one of inputs that pass upwards** in a tree:
what is needed for an induction over it. -/
structure Block.Hereditary (P : Block → Prop) (Q : Input → Prop) : Prop where
  /-- From the inputs in its slots to a block. -/
  owner : ∀ b : Block, (∀ e ∈ b.inputs, Q e.2) → P b
  flat : ∀ input : Input, input.IsFlat → Q input
  block : ∀ b : Block, P b → Q (.block b)
  stack : ∀ blocks : List Block, (∀ b ∈ blocks, P b) → Q (.stack blocks)
  arguments : ∀ values : List Input, (∀ v ∈ values, Q v) → Q (.arguments values)

namespace Block.Hereditary

variable {P : Block → Prop} {Q : Input → Prop}

mutual

/-- **Induction over a tree of blocks.** -/
theorem forall_block (h : Hereditary P Q) : ∀ b : Block, P b
  | ⟨id, opcode, inputs, signature⟩ =>
    h.owner ⟨id, opcode, inputs, signature⟩ (forall_slot h inputs)

/-- The induction, over the slots of a block. -/
theorem forall_slot (h : Hereditary P Q) : ∀ inputs : List (String × Input), ∀ e ∈ inputs, Q e.2
  | [], _, hmem => absurd hmem List.not_mem_nil
  | (_, input) :: rest, e, hmem => by
    rcases List.mem_cons.mp hmem with rfl | hmem
    · exact forall_input h input
    · exact forall_slot h rest e hmem

/-- The induction, over an input. -/
theorem forall_input (h : Hereditary P Q) : ∀ input : Input, Q input
  | .block b => h.block b (forall_block h b)
  | .stack blocks => h.stack blocks (forall_stack h blocks)
  | .arguments values => h.arguments values (forall_argument h values)
  | .number value => h.flat (.number value) trivial
  | .angle degrees => h.flat (.angle degrees) trivial
  | .color value => h.flat (.color value) trivial
  | .text value => h.flat (.text value) trivial
  | .boolean value => h.flat (.boolean value) trivial
  | .broadcastRef ref => h.flat (.broadcastRef ref) trivial
  | .variableRef ref => h.flat (.variableRef ref) trivial
  | .listRef ref => h.flat (.listRef ref) trivial
  | .menu kind choice => h.flat (.menu kind choice) trivial

/-- The induction, over the blocks of a stack. -/
theorem forall_stack (h : Hereditary P Q) : ∀ blocks : List Block, ∀ b ∈ blocks, P b
  | [], _, hmem => absurd hmem List.not_mem_nil
  | first :: rest, b, hmem => by
    rcases List.mem_cons.mp hmem with heq | hmem
    · exact heq ▸ forall_block h first
    · exact forall_stack h rest b hmem

/-- The induction, over the arguments of a call. -/
theorem forall_argument (h : Hereditary P Q) : ∀ values : List Input, ∀ v ∈ values, Q v
  | [], _, hmem => absurd hmem List.not_mem_nil
  | first :: rest, v, hmem => by
    rcases List.mem_cons.mp hmem with heq | hmem
    · exact heq ▸ forall_input h first
    · exact forall_argument h rest v hmem

end

end Block.Hereditary

namespace Block

/-! ## The visit lists the blocks of the tree -/

/-- A visit is the root and what is visited in its slots. -/
theorem visit_eq_cons (root : Block) : root.visit = root :: visitSlots root.inputs := by
  cases root
  rw [visit]

/-- The slots are visited one after the other. -/
theorem visitSlots_eq_flatMap (inputs : List (String × Input)) :
    visitSlots inputs = inputs.flatMap (fun slot => visitInput slot.2) := by
  induction inputs with
  | nil => rfl
  | cons slot rest ih => rw [visitSlots, ih, List.flatMap_cons]

/-- Arguments are visited one after the other. -/
theorem visitInputs_eq_flatMap (values : List Input) :
    visitInputs values = values.flatMap visitInput := by
  induction values with
  | nil => rfl
  | cons value rest ih => rw [visitInputs, ih, List.flatMap_cons]

/-- A flat input holds no block to visit. -/
theorem visitInput_of_isFlat {input : Input} (h : input.IsFlat) : visitInput input = [] := by
  cases input with
  | block _ | stack _ | arguments _ => exact h.elim
  | _ => rfl

/-- A visited block is within the root, and one visited in an input is within
a block that the input holds: both pass upwards. -/
theorem hereditary_within (b : Block) :
    Hereditary (fun root => b ∈ root.visit → b.Within root)
      (fun input => b ∈ visitInput input → ∃ child, input.Holds child ∧ b.Within child) where
  owner root ih h := by
    rw [visit_eq_cons, List.mem_cons, visitSlots_eq_flatMap, List.mem_flatMap] at h
    rcases h with rfl | ⟨e, he, hb⟩
    · exact .self
    · obtain ⟨child, hchild, hb⟩ := ih e he hb
      exact .slot he hchild hb
  flat input hflat h := by
    rw [visitInput_of_isFlat hflat] at h
    cases h
  block c ih h := by
    rw [visitInput] at h
    exact ⟨c, .block c, ih h⟩
  stack blocks ih h := by
    rw [visitInput, visitAll_eq_flatMap, List.mem_flatMap] at h
    obtain ⟨c, hc, hb⟩ := h
    exact ⟨c, .stack hc, ih c hc hb⟩
  arguments values ih h := by
    rw [visitInput, visitInputs_eq_flatMap, List.mem_flatMap] at h
    obtain ⟨v, hv, hb⟩ := h
    obtain ⟨child, hchild, hb⟩ := ih v hv hb
    exact ⟨child, .arguments hv hchild, hb⟩

/-- What is visited from a block that an input holds is visited in the
input. -/
theorem mem_visitInput_of_holds {input : Input} {child b : Block} (h : input.Holds child)
    (hb : b ∈ child.visit) : b ∈ visitInput input := by
  induction h with
  | block c => exact hb
  | stack hc =>
    rw [visitInput, visitAll_eq_flatMap]
    exact List.mem_flatMap.mpr ⟨_, hc, hb⟩
  | arguments hvalue _ ih =>
    rw [visitInput, visitInputs_eq_flatMap]
    exact List.mem_flatMap.mpr ⟨_, hvalue, ih hb⟩

/-- **The visit lists exactly the blocks within the root.** -/
theorem mem_visit_iff {b root : Block} : b ∈ root.visit ↔ b.Within root := by
  refine ⟨(hereditary_within b).forall_block root, fun h => ?_⟩
  induction h with
  | self =>
    rw [visit_eq_cons]
    exact List.mem_cons_self
  | slot hmem hholds _ ih =>
    rw [visit_eq_cons, visitSlots_eq_flatMap]
    refine List.mem_cons_of_mem _ (List.mem_flatMap.mpr ⟨_, hmem, ?_⟩)
    exact mem_visitInput_of_holds hholds ih

end Block

end ScratchLegacy
