import ScratchLegacy.Proofs.BlockGraph
import ScratchLegacy.Proofs.Sequences

/-!
# When a block can be expanded

A block is expanded by taking the steps of its slots one after the other, and
the first step that cannot be taken ends it. Which steps can be taken depends
only on which chains can be grown, so `Step.Feasible` has the chains that can
be grown as a parameter; nothing that a step stores matters for it.

`BlockTable.expands_succ_iff` and `BlockTable.feasible_slotSteps_child_iff`
say what it takes to expand a block and to fill one of its slots. Everything
about failure is derived from these two.
-/

namespace ScratchLegacy

/-! ## Steps that can be taken -/

/-- **Whether a step can be taken**, given which chains can be grown. -/
def Step.Feasible (grows : String → Prop) : Step → Prop
  | .fill .. | .sign _ => True
  | .grow _ _ head | .inspect head => grows head
  | .fail _ => False

namespace Step

variable {grows : String → Prop}

/-- What is left of a step inside an inlined shadow can be taken when the step
can. -/
theorem forall_feasible_filterMap_inherited? {steps : List Step} :
    (∀ s ∈ steps.filterMap inherited?, s.Feasible grows) ↔ ∀ s ∈ steps, s.Feasible grows := by
  induction steps with
  | nil => rfl
  | cons s steps ih =>
    rw [List.filterMap_cons, List.forall_mem_cons, ← ih]
    cases s <;> simp [inherited?, Feasible]

/-- What is left of a step inside a shadow whose slots are dropped can be
taken when the step can. -/
theorem forall_feasible_filterMap_inspection? {steps : List Step} :
    (∀ s ∈ steps.filterMap inspection?, s.Feasible grows) ↔ ∀ s ∈ steps, s.Feasible grows := by
  induction steps with
  | nil => rfl
  | cons s steps ih =>
    rw [List.filterMap_cons, List.forall_mem_cons, ← ih]
    cases s <;> simp [inspection?, Feasible]

/-- **Taking over a shadow is possible when the steps of its slots are**: its
fields never fail. -/
theorem forall_feasible_adopt {opcode : String} {fields : List (String × Input)}
    {inner : List Step} :
    (∀ s ∈ adopt opcode fields inner, s.Feasible grows) ↔ ∀ s ∈ inner, s.Feasible grows := by
  unfold adopt
  split
  · rw [List.forall_mem_append, forall_feasible_filterMap_inspection?, and_iff_left]
    intro s hs
    obtain ⟨input, _, rfl⟩ := Option.map_eq_some_iff.mp (Option.mem_toList.mp hs)
    trivial
  · rw [List.forall_mem_append, forall_feasible_filterMap_inherited?, and_iff_left]
    intro s hs
    obtain ⟨field, _, rfl⟩ := List.mem_map.mp hs
    trivial

end Step

namespace Filling

variable {chainOf : String → Except ScriptError (List Block)}

/-- A step gives a filling exactly when it can be taken. -/
theorem exists_take_eq_ok_iff {f : Filling} {s : Step} :
    (∃ f', f.take chainOf s = .ok f') ↔ s.Feasible (fun head => ∃ bs, chainOf head = .ok bs) := by
  cases s with
  | fill slot input => exact ⟨fun _ => trivial, fun _ => ⟨_, rfl⟩⟩
  | sign signature => exact ⟨fun _ => trivial, fun _ => ⟨_, rfl⟩⟩
  | grow slot statements head =>
    show (∃ f', (chainOf head).map _ = .ok f') ↔ ∃ bs, chainOf head = .ok bs
    cases chainOf head <;> simp [Except.map]
  | inspect head =>
    show (∃ f', (chainOf head).map _ = .ok f') ↔ ∃ bs, chainOf head = .ok bs
    cases chainOf head <;> simp [Except.map]
  | fail error => exact ⟨fun ⟨_, h⟩ => (nomatch h), fun h => h.elim⟩

/-- **Steps give a filling exactly when all of them can be taken.** -/
theorem exists_foldlM_take_eq_ok_iff {steps : List Step} {f : Filling} :
    (∃ f', steps.foldlM (take chainOf) f = .ok f')
      ↔ ∀ s ∈ steps, s.Feasible (fun head => ∃ bs, chainOf head = .ok bs) := by
  induction steps generalizing f with
  | nil => exact ⟨fun _ _ hs => absurd hs List.not_mem_nil, fun _ => ⟨f, rfl⟩⟩
  | cons s steps ih =>
    rw [List.forall_mem_cons, ← exists_take_eq_ok_iff (f := f), List.foldlM_cons]
    cases hs : f.take chainOf s with
    | error e => exact ⟨fun ⟨_, h⟩ => (nomatch h), fun ⟨⟨_, h⟩, _⟩ => (nomatch h)⟩
    | ok f' =>
      refine ⟨fun h => ⟨⟨f', rfl⟩, ih.mp h⟩, fun h => ?_⟩
      exact ih.mpr h.2

end Filling

/-- A block made of its filled slots has the id that it is made for. -/
theorem Filling.id_block (f : Filling) (id opcode : String) (record : BlockRecord) :
    (f.block id opcode record).id = id := by
  unfold block
  split <;> rfl

/-- A block made of its filled slots has the opcode that it is made for. -/
theorem Filling.opcode_block (f : Filling) (id opcode : String) (record : BlockRecord) :
    (f.block id opcode record).opcode = opcode := by
  unfold block
  split <;> rfl

/-- A prototype declares a signature exactly when it has procedure data with a
proccode. -/
theorem BlockRecord.exists_signature_eq_ok_iff {id : String} {r : BlockRecord} :
    (∃ s, r.signature id = .ok s) ↔ ∃ m proccode, r.mutation? = some m
      ∧ m.proccode? = some proccode := by
  unfold signature
  cases r.mutation? with
  | none => simp
  | some m => cases hp : m.proccode? <;> simp [hp]

namespace BlockTable

variable {t : BlockTable}

/-- **The chain of a head**, expanded inside the blocks that are open. -/
def chainWithin (t : BlockTable) (room : Nat) (opened : List String) (head : String) :
    Except ScriptError (List Block) :=
  (t.follow head).mapM (t.expand room opened)

/-- **A block can be expanded** inside the blocks that are open. -/
def Expands (t : BlockTable) (room : Nat) (opened : List String) (id : String) : Prop :=
  ∃ b, t.expand room opened id = .ok b

/-- A chain can be expanded when each of its blocks can. -/
theorem exists_chainWithin_iff {room : Nat} {opened : List String} {head : String} :
    (∃ blocks, t.chainWithin room opened head = .ok blocks)
      ↔ ∀ x ∈ t.follow head, t.Expands room opened x :=
  exists_mapM_eq_ok_iff

/-- Without room no block can be expanded. -/
theorem not_expands_zero {opened : List String} {id : String} : ¬ t.Expands 0 opened id := by
  rintro ⟨b, h⟩
  unfold expand at h
  split at h
  · cases h
  · split at h
    · cases h
    · split at h <;> cases h

/-- **What expanding a block gives**: it has a record with an opcode, it is not
open, and its slots are filled with chains whose blocks are expanded inside
this one. -/
theorem expand_succ_eq_ok_iff {room : Nat} {opened : List String} {id : String} {b : Block} :
    t.expand (room + 1) opened id = .ok b ↔
      ∃ record opcode f, t.record? id = some record ∧ id ∉ opened ∧ record.opcode? = some opcode
        ∧ (t.steps t.length [] id opcode record).foldlM
            (Filling.take (t.chainWithin room (id :: opened))) {} = .ok f
        ∧ f.block id opcode record = b := by
  rw [expand]
  constructor
  · intro h
    split at h
    · cases h
    · next record hrecord =>
      split at h
      · cases h
      · next hnew =>
        split at h
        · cases h
        · next opcode hopcode =>
          obtain ⟨f, hf, hb⟩ := map_eq_ok_iff.mp h
          exact ⟨record, opcode, f, hrecord, hnew, hopcode, hf, hb⟩
  · rintro ⟨record, opcode, f, hrecord, hnew, hopcode, hf, rfl⟩
    simp only [hrecord, hnew, if_false, hopcode]
    exact map_eq_ok_iff.mpr ⟨f, hf, rfl⟩

/-- **What it takes to expand a block**: it has a record with an opcode, it is
not open, and all its slots can be filled, where a chain can be grown when each
of its blocks can be expanded inside this one. -/
theorem expands_succ_iff {room : Nat} {opened : List String} {id : String} :
    t.Expands (room + 1) opened id ↔
      ∃ record opcode, t.record? id = some record ∧ id ∉ opened ∧ record.opcode? = some opcode
        ∧ ∀ s ∈ t.steps t.length [] id opcode record,
          s.Feasible (fun head => ∀ x ∈ t.follow head, t.Expands room (id :: opened) x) := by
  rw [Expands]
  simp only [expand_succ_eq_ok_iff, ← exists_chainWithin_iff,
    ← Filling.exists_foldlM_take_eq_ok_iff (f := {})]
  constructor
  · rintro ⟨b, record, opcode, f, hrecord, hnew, hopcode, hf, _⟩
    exact ⟨record, opcode, hrecord, hnew, hopcode, f, hf⟩
  · rintro ⟨record, opcode, hrecord, hnew, hopcode, f, hf⟩
    exact ⟨_, record, opcode, f, hrecord, hnew, hopcode, hf, rfl⟩

/-- An expanded block keeps the id that it was expanded from. -/
theorem id_of_expand {room : Nat} {opened : List String} {id : String} {b : Block}
    (h : t.expand room opened id = .ok b) : b.id = id := by
  cases room with
  | zero => exact absurd ⟨b, h⟩ not_expands_zero
  | succ room =>
    obtain ⟨record, opcode, f, _, _, _, _, rfl⟩ := expand_succ_eq_ok_iff.mp h
    exact Filling.id_block f id opcode record

section Chains

variable {room : Nat} {opened : List String} {head : String} {blocks : List Block}

/-- Expanded blocks have the ids that they were expanded from. -/
theorem map_id_of_chainWithin (h : t.chainWithin room opened head = .ok blocks) :
    blocks.map Block.id = t.follow head := by
  have hids : ∀ {ids : List String} {blocks : List Block},
      List.Forall₂ (fun id b => t.expand room opened id = .ok b) ids blocks →
        blocks.map Block.id = ids := by
    intro ids blocks hall
    induction hall with
    | nil => rfl
    | cons hb _ ih => rw [List.map_cons, id_of_expand hb, ih]
  exact hids (mapM_eq_ok_iff.mp h)

/-- **A chain that is expanded is cut where it would come to an id that it has
met.** -/
theorem chained_of_chainWithin (h : t.chainWithin room opened head = .ok blocks) :
    t.Chained [] head (blocks.map Block.id) := by
  rw [map_id_of_chainWithin h]
  exact chained_follow t head

/-- A chain that is expanded has a block. -/
theorem ne_nil_of_chainWithin (h : t.chainWithin room opened head = .ok blocks) :
    blocks ≠ [] := by
  rintro rfl
  have hnil : [] = t.follow head := map_id_of_chainWithin h
  have hhead : head ∈ t.follow head := mem_follow_iff.mpr .refl
  rw [← hnil] at hhead
  cases hhead

/-- The blocks of a chain were expanded. -/
theorem exists_expand_of_mem_chainWithin (h : t.chainWithin room opened head = .ok blocks)
    {b : Block} (hb : b ∈ blocks) : ∃ id, t.expand room opened id = .ok b := by
  obtain ⟨id, _, hid⟩ := exists_of_mem_right (mapM_eq_ok_iff.mp h) hb
  exact ⟨id, hid⟩

end Chains

/-! ## The steps of one slot -/

section SlotSteps

variable {inline : String → String → BlockRecord → List Step} {owner opcode slot id : String}
  {child : BlockRecord} {childOpcode : String}

theorem slotSteps_literal {parts : List Json} :
    t.slotSteps inline owner opcode (slot, .literal parts)
      = ((literalInput? owner slot parts).map (Step.fill slot)).toList := rfl

theorem slotSteps_of_none (h : t.record? id = none) :
    t.slotSteps inline owner opcode (slot, .child id) = [.fail (.missingBlock id)] := by
  simp only [slotSteps, h]

theorem slotSteps_of_not_inlined (h : t.record? id = some child) (hi : ¬ child.isInlined) :
    t.slotSteps inline owner opcode (slot, .child id)
      = [.grow slot (Opcode.isStatementSlot opcode slot) id] := by
  simp only [slotSteps, h]
  exact if_pos hi

theorem slotSteps_of_opcode_none (h : t.record? id = some child) (hi : child.isInlined)
    (ho : child.opcode? = none) :
    t.slotSteps inline owner opcode (slot, .child id) = [.fail (.missingOpcode id)] := by
  simp only [slotSteps, h, hi, not_true_eq_false, if_false, ho]

theorem slotSteps_of_prototype (h : t.record? id = some child) (hi : child.isInlined)
    (ho : child.opcode? = some Opcode.prototype) :
    t.slotSteps inline owner opcode (slot, .child id)
      = match child.signature id with
        | .ok signature => [.sign signature]
        | .error error => [.fail error] := by
  cases hs : child.signature id <;>
    simp only [slotSteps, h, hi, not_true_eq_false, if_false, ho, if_true, hs]

theorem slotSteps_of_shadow (h : t.record? id = some child) (hi : child.isInlined)
    (ho : child.opcode? = some childOpcode) (hp : childOpcode ≠ Opcode.prototype) :
    t.slotSteps inline owner opcode (slot, .child id) = inline id childOpcode child := by
  simp only [slotSteps, h, hi, not_true_eq_false, if_false, ho, hp]

/-- **The steps that an inlined shadow contributes.** -/
def inlined (t : BlockTable) (room : Nat) (trail : List String) (id childOpcode : String)
    (child : BlockRecord) : List Step :=
  if id ∈ trail then [.fail (.nestedInItself id)]
  else
    match room with
    | 0 => [.fail (.nestedInItself id)]
    | room + 1 =>
      Step.adopt childOpcode (child.fieldInputs childOpcode)
        (t.steps room (id :: trail) id childOpcode child)

/-- The steps of a record are those of its slots, one after the other. -/
theorem steps_eq_flatMap (t : BlockTable) (room : Nat) (trail : List String)
    (owner opcode : String) (record : BlockRecord) :
    t.steps room trail owner opcode record
      = record.slots.flatMap (t.slotSteps (t.inlined room trail) owner opcode) := by
  rw [steps]
  rfl

/-- With room left, a shadow that is not on the trail is taken over. -/
theorem inlined_succ {room : Nat} {trail : List String} (h : id ∉ trail) :
    t.inlined (room + 1) trail id childOpcode child
      = Step.adopt childOpcode (child.fieldInputs childOpcode)
          (t.steps room (id :: trail) id childOpcode child) := by
  unfold inlined
  exact if_neg h

/-- **What it takes to inline a shadow**: it is not on the trail, there is room
for it, and its own slots can be filled. -/
theorem feasible_inlined_iff {grows : String → Prop} {room : Nat} {trail : List String} :
    (∀ s ∈ t.inlined room trail id childOpcode child, s.Feasible grows) ↔
      id ∉ trail ∧ ∃ rest, room = rest + 1 ∧
        ∀ s ∈ t.steps rest (id :: trail) id childOpcode child, s.Feasible grows := by
  unfold inlined
  by_cases hmem : id ∈ trail
  · simp [hmem, Step.Feasible]
  · cases room with
    | zero => simp [hmem, Step.Feasible]
    | succ room => simp only [hmem, if_false, Step.forall_feasible_adopt]; simp

/-- A slot that stores a literal can always be filled. -/
theorem feasible_slotSteps_literal {grows : String → Prop} {parts : List Json} :
    ∀ s ∈ t.slotSteps inline owner opcode (slot, .literal parts), s.Feasible grows := by
  intro s hs
  obtain ⟨input, _, rfl⟩ := Option.map_eq_some_iff.mp (Option.mem_toList.mp hs)
  trivial

/-- **What it takes to fill a slot that names a child**: the child has a
record, and either begins a chain that can be grown, or has an opcode and, as
a prototype, a signature, or as any other shadow, slots of its own that can be
filled. -/
theorem feasible_slotSteps_child_iff {grows : String → Prop} :
    (∀ s ∈ t.slotSteps inline owner opcode (slot, .child id), s.Feasible grows) ↔
      ∃ child, t.record? id = some child ∧
        if child.isInlined then
          ∃ childOpcode, child.opcode? = some childOpcode ∧
            if childOpcode = Opcode.prototype then ∃ signature, child.signature id = .ok signature
            else ∀ s ∈ inline id childOpcode child, s.Feasible grows
        else grows id := by
  cases hchild : t.record? id with
  | none => simp [slotSteps_of_none hchild, Step.Feasible]
  | some child =>
    by_cases hi : child.isInlined
    · cases ho : child.opcode? with
      | none => simp [slotSteps_of_opcode_none hchild hi ho, hi, ho, Step.Feasible]
      | some childOpcode =>
        by_cases hp : childOpcode = Opcode.prototype
        · subst hp
          cases hs : child.signature id <;>
            simp [slotSteps_of_prototype hchild hi ho, hi, ho, hs, Step.Feasible]
        · simp [slotSteps_of_shadow hchild hi ho hp, hi, ho, hp]
    · simp [slotSteps_of_not_inlined hchild hi, hi, Step.Feasible]

end SlotSteps

/-! ## The scripts of a table -/

/-- **The scripts of a table are the chains of its heads**, at their places. -/
theorem scripts_eq_ok_iff {ss : List Script} :
    t.scripts = .ok ss ↔ List.Forall₂
      (fun e s => t.chain e.1 = .ok s.blocks ∧ s.x = e.2.x ∧ s.y = e.2.y)
      (t.filter (fun e => e.2.isHead)) ss := by
  rw [scripts, mapM_eq_ok_iff]
  refine iff_of_eq (congrArg (fun r => List.Forall₂ r _ _) (funext fun e => funext fun s => ?_))
  obtain ⟨id, record⟩ := e
  obtain ⟨x, y, blocks⟩ := s
  dsimp only
  cases t.chain id with
  | error error => simp
  | ok blocks' =>
    rw [Except.ok.injEq, Except.ok.injEq, Script.mk.injEq, eq_comm (a := record.x),
      eq_comm (a := record.y), ← and_assoc, and_comm]

end BlockTable

end ScratchLegacy
