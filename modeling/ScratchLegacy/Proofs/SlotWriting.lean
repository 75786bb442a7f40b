import ScratchLegacy.Proofs.SlotFilling

/-!
# What filling the slots of a block writes

The steps of a block write into one map, so what a key holds in the end is
what was written there last. The writes are listed by `Step.write?`, and
`Filling.inputs_of_foldlM_take` says that the slots filled are these writes in
order, the fields of the block coming after them.

Two relations describe the writes without the steps. `BlockTable.Writes` says
which keys the entry of a slot writes: its own, or for a shadow that is inlined
those of its slots and fields. `BlockTable.Puts` says that the chain of a head
is what the slots of a place write last under a key.
-/

namespace ScratchLegacy

/-! ## What a step writes -/

/-- **The input that holds a chain**: a stack in a slot for statements or of
more than one block, and otherwise the single block. -/
def Input.ofChain (statements : Bool) : List Block → Input
  | [b] => if statements then .stack [b] else .block b
  | blocks => .stack blocks

/-- **What a step writes**, with its key, given the chains that are grown. -/
def Step.write? (chains : String → List Block) : Step → Option (String × Input)
  | fill slot input => some (slot, input)
  | grow slot statements head => some (slot, .ofChain statements (chains head))
  | inspect _ | sign _ | fail _ => none

namespace Step

variable {chains : String → List Block}

/-- A shadow that is inlined writes for its owner what its slots write. -/
theorem filterMap_write?_inherited? (steps : List Step) :
    (steps.filterMap inherited?).filterMap (write? chains) = steps.filterMap (write? chains) := by
  rw [List.filterMap_filterMap]
  congr 1
  funext s
  cases s <;> rfl

/-- A shadow whose slots are dropped writes nothing by them. -/
theorem filterMap_write?_inspection? (steps : List Step) :
    (steps.filterMap inspection?).filterMap (write? chains) = [] := by
  rw [List.filterMap_filterMap, List.filterMap_eq_nil_iff]
  intro s _
  cases s <;> rfl

/-- **What taking over a shadow writes**: what its slots write, then its
fields, or for the menu of pen parameters the parameter only. -/
theorem filterMap_write?_adopt (opcode : String) (fields : List (String × Input))
    (inner : List Step) :
    (adopt opcode fields inner).filterMap (write? chains) =
      if opcode = Opcode.colorParamMenu then
        ((Entries.find? "colorParam" fields).map (fun input => ("COLOR_PARAM", input))).toList
      else inner.filterMap (write? chains) ++ fields := by
  have hfields : (fields.map (fun f => fill f.1 f.2)).filterMap (write? chains) = fields := by
    rw [List.filterMap_map]
    exact List.filterMap_some
  unfold adopt
  split
  · rw [List.filterMap_append, filterMap_write?_inspection?, List.nil_append]
    cases Entries.find? "colorParam" fields <;> rfl
  · rw [List.filterMap_append, filterMap_write?_inherited?, hfields]

end Step

namespace Filling

variable {chainOf : String → Except ScriptError (List Block)} {chains : String → List Block}

/-- A chain with a block in it is written into its slot. -/
theorem inputs_grown {f : Filling} {slot : String} {statements : Bool} {blocks : List Block}
    (h : blocks ≠ []) :
    (f.grown slot statements blocks).inputs
      = SlotMap.insert slot (.ofChain statements blocks) f.inputs := by
  match blocks, h with
  | [_], _ => rfl
  | _ :: _ :: _, _ => rfl

/-- A step that is taken writes into the slots filled so far. -/
theorem inputs_of_take {f f' : Filling} {s : Step}
    (hchains : ∀ head blocks, chainOf head = .ok blocks → chains head = blocks ∧ blocks ≠ [])
    (h : f.take chainOf s = .ok f') :
    f'.inputs = SlotMap.insertAll f.inputs (s.write? chains).toList := by
  cases s with
  | fill slot input =>
    cases h
    rfl
  | grow slot statements head =>
    obtain ⟨blocks, hblocks, rfl⟩ := map_eq_ok_iff.mp h
    obtain ⟨rfl, hne⟩ := hchains head blocks hblocks
    exact inputs_grown hne
  | inspect head =>
    obtain ⟨_, _, rfl⟩ := map_eq_ok_iff.mp h
    rfl
  | sign signature =>
    cases h
    rfl
  | fail error => cases h

/-- **The slots filled are what the steps write**, one after the other. -/
theorem inputs_of_foldlM_take {steps : List Step} {f f' : Filling}
    (hchains : ∀ head blocks, chainOf head = .ok blocks → chains head = blocks ∧ blocks ≠ [])
    (h : steps.foldlM (take chainOf) f = .ok f') :
    f'.inputs = SlotMap.insertAll f.inputs (steps.filterMap (Step.write? chains)) := by
  induction steps generalizing f with
  | nil =>
    cases h
    rfl
  | cons s steps ih =>
    rw [List.foldlM_cons] at h
    cases hs : f.take chainOf s with
    | error e =>
      rw [hs] at h
      cases h
    | ok f₁ =>
      rw [hs] at h
      have hcons : (s :: steps).filterMap (Step.write? chains)
          = (s.write? chains).toList ++ steps.filterMap (Step.write? chains) := by
        rw [List.filterMap_cons]
        cases s.write? chains <;> rfl
      rw [ih h, inputs_of_take hchains hs, hcons]
      exact List.foldl_append.symm

end Filling

/-! ## What the entry of a slot writes -/

namespace BlockTable

variable {t : BlockTable} {chains : String → List Block}

/-- **A shadow whose parts an owner takes over.** -/
structure Adopted (t : BlockTable) (id : String) (child : BlockRecord) (opcode : String) :
    Prop where
  found : t.record? id = some child
  inlined : child.isInlined
  op : child.opcode? = some opcode
  notPrototype : opcode ≠ Opcode.prototype

/-- **What the entry of a slot writes**, with its key, in a record of this id
and opcode. -/
inductive Writes (t : BlockTable) (chains : String → List Block) :
    String → String → String × SlotValue → String × Input → Prop where
  /-- A literal is written into the slot. -/
  | literal {owner opcode slot : String} {parts : List Json} {input : Input}
      (stored : literalInput? owner slot parts = some input) :
      Writes t chains owner opcode (slot, .literal parts) (slot, input)
  /-- A chain is written into the slot. -/
  | chain {owner opcode slot head : String} {child : BlockRecord}
      (named : t.record? head = some child) (notInlined : ¬ child.isInlined) :
      Writes t chains owner opcode (slot, .child head)
        (slot, .ofChain (Opcode.isStatementSlot opcode slot) (chains head))
  /-- A shadow that is inlined writes what its own slots write. -/
  | slot {owner opcode slot id childOpcode : String} {child : BlockRecord}
      {entry : String × SlotValue} {w : String × Input} (adopted : t.Adopted id child childOpcode)
      (notMenu : childOpcode ≠ Opcode.colorParamMenu) (mem : entry ∈ child.slots)
      (writes : Writes t chains id childOpcode entry w) :
      Writes t chains owner opcode (slot, .child id) w
  /-- A shadow that is inlined writes its fields. -/
  | field {owner opcode slot id childOpcode : String} {child : BlockRecord} {w : String × Input}
      (adopted : t.Adopted id child childOpcode) (notMenu : childOpcode ≠ Opcode.colorParamMenu)
      (mem : w ∈ child.fieldInputs childOpcode) :
      Writes t chains owner opcode (slot, .child id) w
  /-- The menu of pen parameters writes the parameter. -/
  | parameter {owner opcode slot id : String} {child : BlockRecord} {input : Input}
      (adopted : t.Adopted id child Opcode.colorParamMenu)
      (stored : Entries.find? "colorParam" (child.fieldInputs Opcode.colorParamMenu)
        = some input) :
      Writes t chains owner opcode (slot, .child id) ("COLOR_PARAM", input)

/-- **The entry of a slot writes a key.** -/
def WritesKey (t : BlockTable) (entry : String × SlotValue) (key : String) : Prop :=
  ∃ chains owner opcode input, t.Writes chains owner opcode entry (key, input)

/-- **The chain of a head is what the slots of a place write last** under a
key. The truth value says whether the slot it is from is one for
statements. -/
inductive Puts (t : BlockTable) : Place → String → Bool → String → Prop where
  /-- The slot is one of the place, and no slot after it writes its key. -/
  | slot {p : Place} {record child : BlockRecord} {opcode slot head : String}
      {before after : List (String × SlotValue)} (found : t.record? p.id = some record)
      (op : record.opcode? = some opcode) (reads : t.ReadsSlots p)
      (split : record.slots = before ++ (slot, .child head) :: after)
      (named : t.record? head = some child) (notInlined : ¬ child.isInlined)
      (last : ∀ entry ∈ after, ¬ t.WritesKey entry slot) :
      Puts t p slot (Opcode.isStatementSlot opcode slot) head
  /-- The slot is one of an inlined shadow, and neither a field of the shadow
  nor a slot after the one that holds it writes the key. -/
  | shadow {p : Place} {record child : BlockRecord} {slot id childOpcode key head : String}
      {statements : Bool} {before after : List (String × SlotValue)}
      (found : t.record? p.id = some record) (reads : t.ReadsSlots p)
      (split : record.slots = before ++ (slot, .child id) :: after)
      (adopted : t.Adopted id child childOpcode) (notMenu : childOpcode ≠ Opcode.colorParamMenu)
      (puts : Puts t (.shadow id) key statements head)
      (fields : ∀ f ∈ child.fieldInputs childOpcode, f.1 ≠ key)
      (last : ∀ entry ∈ after, ¬ t.WritesKey entry key) :
      Puts t p key statements head

/-! ## The steps write what the entries write -/

/-- A slot that names a shadow to be taken over has the steps of the shadow. -/
theorem Adopted.slotSteps {id childOpcode : String} {child : BlockRecord}
    (h : t.Adopted id child childOpcode) (inline : String → String → BlockRecord → List Step)
    (owner opcode slot : String) :
    t.slotSteps inline owner opcode (slot, .child id) = inline id childOpcode child :=
  slotSteps_of_shadow h.found h.inlined h.op h.notPrototype

/-- An inlined shadow writes something only when there is room for it, and
then by being taken over. -/
theorem exists_room_of_mem_inlined {room : Nat} {trail : List String} {id childOpcode : String}
    {child : BlockRecord} {w : String × Input}
    (h : w ∈ (t.inlined room trail id childOpcode child).filterMap (Step.write? chains)) :
    ∃ rest < room, w ∈ (Step.adopt childOpcode (child.fieldInputs childOpcode)
      (t.steps rest (id :: trail) id childOpcode child)).filterMap (Step.write? chains) := by
  unfold inlined at h
  split at h
  · cases h
  · cases room with
    | zero => cases h
    | succ room => exact ⟨room, Nat.lt_succ_self room, h⟩

/-- **The steps of a slot that names a child**: it fails, takes a signature,
grows a chain or takes over a shadow. -/
theorem slotSteps_child_cases (t : BlockTable)
    (inline : String → String → BlockRecord → List Step) (owner opcode slot id : String) :
    (∃ error, t.slotSteps inline owner opcode (slot, .child id) = [.fail error])
      ∨ (∃ signature, t.slotSteps inline owner opcode (slot, .child id) = [.sign signature])
      ∨ (∃ child, t.record? id = some child ∧ ¬ child.isInlined
        ∧ t.slotSteps inline owner opcode (slot, .child id)
          = [.grow slot (Opcode.isStatementSlot opcode slot) id])
      ∨ ∃ child childOpcode, t.Adopted id child childOpcode
        ∧ t.slotSteps inline owner opcode (slot, .child id) = inline id childOpcode child := by
  cases hchild : t.record? id with
  | none => exact .inl ⟨_, slotSteps_of_none hchild⟩
  | some child =>
    by_cases hi : child.isInlined
    · cases ho : child.opcode? with
      | none => exact .inl ⟨_, slotSteps_of_opcode_none hchild hi ho⟩
      | some childOpcode =>
        by_cases hp : childOpcode = Opcode.prototype
        · cases hs : child.signature id with
          | ok signature =>
            exact .inr (.inl ⟨signature, by rw [slotSteps_of_prototype hchild hi (hp ▸ ho), hs]⟩)
          | error error =>
            exact .inl ⟨error, by rw [slotSteps_of_prototype hchild hi (hp ▸ ho), hs]⟩
        · exact .inr (.inr (.inr ⟨child, childOpcode, ⟨hchild, hi, ho, hp⟩,
            slotSteps_of_shadow hchild hi ho hp⟩))
    · exact .inr (.inr (.inl ⟨child, rfl, hi, slotSteps_of_not_inlined hchild hi⟩))

/-- **The steps of a slot write what its entry writes.** -/
theorem writes_of_mem_slotSteps {room : Nat} {trail : List String} {owner opcode : String}
    {entry : String × SlotValue} {w : String × Input}
    (h : w ∈ (t.slotSteps (t.inlined room trail) owner opcode entry).filterMap
      (Step.write? chains)) :
    t.Writes chains owner opcode entry w := by
  -- on the number that bounds the inlining, which drops with every shadow taken over
  induction room using Nat.strongRecOn generalizing trail owner opcode entry w with
  | _ room ih =>
    obtain ⟨slot, value⟩ := entry
    cases value with
    | literal parts =>
      rw [slotSteps_literal] at h
      cases hinput : literalInput? owner slot parts with
      | none =>
        rw [hinput] at h
        cases h
      | some input =>
        rw [hinput] at h
        cases List.mem_singleton.mp h
        exact .literal hinput
    | child id =>
      rcases t.slotSteps_child_cases (t.inlined room trail) owner opcode slot id with
        ⟨_, hsteps⟩ | ⟨_, hsteps⟩ | ⟨child, hchild, hi, hsteps⟩ | ⟨child, childOpcode, ha, hsteps⟩
      · rw [hsteps] at h
        cases h
      · rw [hsteps] at h
        cases h
      · rw [hsteps] at h
        cases List.mem_singleton.mp h
        exact .chain hchild hi
      · rw [hsteps] at h
        obtain ⟨rest, hrest, h⟩ := exists_room_of_mem_inlined h
        rw [Step.filterMap_write?_adopt] at h
        split at h
        · next hmenu =>
          subst hmenu
          obtain ⟨input, hinput, rfl⟩ := Option.map_eq_some_iff.mp (Option.mem_toList.mp h)
          exact .parameter ha hinput
        · next hmenu =>
          rcases List.mem_append.mp h with h | h
          · rw [steps_eq_flatMap, List.filterMap_flatMap, List.mem_flatMap] at h
            obtain ⟨entry, hentry, h⟩ := h
            exact .slot ha hmenu hentry (ih rest hrest h)
          · exact .field ha hmenu h

/-- What the steps of a block write is what the entries of its slots write. -/
theorem exists_writes_of_mem_steps {room : Nat} {trail : List String} {owner opcode : String}
    {record : BlockRecord} {w : String × Input}
    (h : w ∈ (t.steps room trail owner opcode record).filterMap (Step.write? chains)) :
    ∃ entry ∈ record.slots, t.Writes chains owner opcode entry w := by
  rw [steps_eq_flatMap, List.filterMap_flatMap, List.mem_flatMap] at h
  obtain ⟨entry, hentry, h⟩ := h
  exact ⟨entry, hentry, writes_of_mem_slotSteps h⟩

/-- What an entry writes last stays when no entry after it writes the key. -/
theorem exists_writes_of_split {room : Nat} {trail : List String} {owner opcode key : String}
    {record : BlockRecord} {input : Input} {entry : String × SlotValue}
    {before after : List (String × SlotValue)} (split : record.slots = before ++ entry :: after)
    (last : ∀ e ∈ after, ¬ t.WritesKey e key)
    (h : ∃ pre post, (t.slotSteps (t.inlined room trail) owner opcode entry).filterMap
        (Step.write? chains) = pre ++ (key, input) :: post ∧ ∀ w ∈ post, w.1 ≠ key) :
    ∃ pre post, (t.steps room trail owner opcode record).filterMap (Step.write? chains)
        = pre ++ (key, input) :: post
      ∧ ∀ w ∈ post, w.1 ≠ key := by
  obtain ⟨pre, post, hentry, hpost⟩ := h
  rw [steps_eq_flatMap, List.filterMap_flatMap, split, List.flatMap_append, List.flatMap_cons,
    hentry, List.append_assoc, ← List.append_assoc]
  refine ⟨_, _, rfl, ?_⟩
  intro w hw hkey
  rcases List.mem_append.mp hw with hw | hw
  · exact hpost w hw hkey
  · obtain ⟨e, he, hw⟩ := List.mem_flatMap.mp hw
    exact last e he ⟨chains, owner, opcode, w.2, hkey ▸ writes_of_mem_slotSteps hw⟩

/-- **The steps of a place write the chain that the place puts**, and nothing
more under its key. -/
theorem exists_writes_of_puts {p : Place} {key head : String} {statements : Bool}
    (h : t.Puts p key statements head) {grows : String → Prop} {room : Nat} {trail : List String}
    {owner opcode : String} {record : BlockRecord} (found : t.record? p.id = some record)
    (op : record.opcode? = some opcode)
    (hfeasible : ∀ s ∈ t.steps room trail owner opcode record, s.Feasible grows) :
    ∃ pre post, (t.steps room trail owner opcode record).filterMap (Step.write? chains)
        = pre ++ (key, .ofChain statements (chains head)) :: post
      ∧ ∀ w ∈ post, w.1 ≠ key := by
  induction h generalizing room trail owner opcode record with
  | slot found' op' _ split named notInlined last =>
    cases found.symm.trans found'
    cases op.symm.trans op'
    refine exists_writes_of_split split last ⟨[], [], ?_, fun w hw => absurd hw List.not_mem_nil⟩
    rw [slotSteps_of_not_inlined named notInlined]
    rfl
  | @shadow p record' child slot id childOpcode key head statements before after found' _ split
      adopted notMenu _ fields last ih =>
    cases found.symm.trans found'
    have hentry : ∀ s ∈ t.inlined room trail id childOpcode child, s.Feasible grows := by
      intro s hs
      refine hfeasible s ?_
      rw [steps_eq_flatMap, split, List.flatMap_append, List.flatMap_cons, adopted.slotSteps]
      exact List.mem_append_right _ (List.mem_append_left _ hs)
    obtain ⟨hnew, rest, rfl, hrest⟩ := feasible_inlined_iff.mp hentry
    obtain ⟨pre, post, hinner, hpost⟩ := ih adopted.found adopted.op hrest
    -- the fields of the shadow come behind its slots, and do not write the key either
    refine exists_writes_of_split split last ⟨pre, post ++ child.fieldInputs childOpcode, ?_,
      List.forall_mem_append.mpr ⟨hpost, fields⟩⟩
    rw [adopted.slotSteps, inlined_succ hnew, Step.filterMap_write?_adopt, if_neg notMenu, hinner,
      List.append_assoc, List.cons_append]

end BlockTable

end ScratchLegacy
