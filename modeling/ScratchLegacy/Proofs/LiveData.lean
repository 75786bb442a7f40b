import ScratchLegacy.Liveness
import ScratchLegacy.Proofs.BlockTree

/-!
# What pruning keeps

`Project.prune` filters by lists of ids that it collects on a visit of the
blocks. Here liveness is said without a visit: a block *names* an id when a
slot of it refers to a variable or a list with that id, and a target names
what some block within one of its scripts names. The data of the stage is
live when any target names it, that of a sprite only when the sprite itself
does.

`Project.prune_eq` is the main statement: pruning filters the variables and
the lists of every target by exactly this, changes nothing else, and has
nothing left to do a second time.
-/

namespace ScratchLegacy

/-- **The ids that a block names** in its own slots: those of the variables
and lists that its slots refer to. -/
def Block.Names (b : Block) (id : String) : Prop :=
  ∃ slot ref, ((slot, Input.variableRef ref) ∈ b.inputs ∨ (slot, Input.listRef ref) ∈ b.inputs)
    ∧ ref.id = id

/-- **The ids that a target names**: those that a block names which is within
some script of the target, at any depth. -/
def Target.Names (t : Target) (id : String) : Prop :=
  ∃ script ∈ t.scripts, ∃ root ∈ script.blocks, ∃ b : Block, b.Within root ∧ b.Names id

/-- **The ids that a project names**: those that the stage or some sprite
names. -/
def Project.Names (p : Project) (id : String) : Prop := ∃ t ∈ p.targets, t.Names id

open Classical in
/-- A target with those of its variables and lists that are shown or whose
ids are live. -/
noncomputable def Target.keeping (t : Target) (live : String → Prop) : Target :=
  { t with
    vars := t.vars.filter (fun v => v.visible = true ∨ live v.id)
    lists := t.lists.filter (fun l => l.visible = true ∨ live l.id) }

/-! ## The collected ids are the named ones -/

/-- An input refers to data exactly when it is a variable or a list. -/
theorem Input.dataRef?_eq_some_iff {input : Input} {ref : DataRef} :
    input.dataRef? = some ref ↔ input = .variableRef ref ∨ input = .listRef ref := by
  cases input <;> simp [dataRef?]

/-- The references of one block are the ids that it names. -/
theorem Block.mem_slotReferences_iff {b : Block} {id : String} :
    id ∈ b.slotReferences ↔ b.Names id := by
  unfold slotReferences Names
  rw [List.mem_filterMap]
  constructor
  · rintro ⟨⟨slot, input⟩, hmem, href⟩
    obtain ⟨ref, hinput, hid⟩ := Option.map_eq_some_iff.mp href
    rcases Input.dataRef?_eq_some_iff.mp hinput with rfl | rfl
    · exact ⟨slot, ref, .inl hmem, hid⟩
    · exact ⟨slot, ref, .inr hmem, hid⟩
  · rintro ⟨slot, ref, hmem | hmem, rfl⟩
    · exact ⟨_, hmem, rfl⟩
    · exact ⟨_, hmem, rfl⟩

namespace Target

/-- The references of a target are the ids that it names. -/
theorem mem_references_iff {t : Target} {id : String} : id ∈ t.references ↔ t.Names id := by
  simp only [references, blocks, List.mem_flatMap, Block.mem_visit_iff,
    Block.mem_slotReferences_iff, Names]
  constructor
  · rintro ⟨b, ⟨script, hscript, root, hroot, hb⟩, hid⟩
    exact ⟨script, hscript, root, hroot, b, hb, hid⟩
  · rintro ⟨script, hscript, root, hroot, b, hb, hid⟩
    exact ⟨b, ⟨script, hscript, root, hroot, hb⟩, hid⟩

/-- Retaining what a list of ids mentions keeps what the list mentions. -/
theorem retain_eq_keeping {t : Target} {used : List String} {live : String → Prop}
    (h : ∀ id, id ∈ used ↔ live id) : t.retain used = t.keeping live := by
  unfold retain keeping
  simp only [← h, List.contains_eq_mem, Bool.decide_or, Bool.decide_eq_true]

/-- Retaining data leaves the scripts alone, and with them the references. -/
@[simp] theorem references_retain (t : Target) (used : List String) :
    (t.retain used).references = t.references := rfl

/-- Retaining data a second time drops nothing. -/
@[simp] theorem retain_retain (t : Target) (used : List String) :
    (t.retain used).retain used = t.retain used := by
  simp only [retain, List.filter_filter, Bool.and_self]

end Target

namespace Project

/-- The references of a project are the ids that it names. -/
theorem mem_references_iff {p : Project} {id : String} : id ∈ p.references ↔ p.Names id := by
  simp only [references, List.mem_flatMap, Target.mem_references_iff, Names]

/-- Pruning leaves the references alone. -/
theorem references_prune (p : Project) : p.prune.references = p.references := by
  simp only [references, targets, prune, List.flatMap_cons, List.flatMap_map,
    Target.references_retain]

/-- Pruning a pruned project changes nothing. -/
theorem prune_prune (p : Project) : p.prune.prune = p.prune := by
  have hstage : p.prune.stage.retain p.prune.references = p.prune.stage := by
    rw [references_prune]
    exact Target.retain_retain _ _
  have hsprites : p.prune.sprites.map (fun s => s.retain s.references) = p.prune.sprites := by
    simp only [prune, List.map_map, Function.comp_def, Target.references_retain,
      Target.retain_retain]
  show { p.prune with
    stage := p.prune.stage.retain p.prune.references
    sprites := p.prune.sprites.map (fun s => s.retain s.references) } = p.prune
  rw [hstage, hsprites]

/-- **Pruning keeps exactly the live data.** The variables and lists of the
stage that stay are those that are shown or that some target names; those of
a sprite that stay are those that are shown or that the sprite itself names.
They stay in their order, as often as they were declared and with all their
parts, and nothing else of the project changes. Pruning again changes
nothing. -/
theorem prune_eq (p : Project) :
    p.prune =
      { p with
        stage := p.stage.keeping p.Names
        sprites := p.sprites.map (fun s => s.keeping s.Names) }
      ∧ p.prune.prune = p.prune := by
  refine ⟨?_, prune_prune p⟩
  have hstage : p.stage.retain p.references = p.stage.keeping p.Names :=
    Target.retain_eq_keeping (fun _ => mem_references_iff)
  have hsprite : ∀ s : Target, s.retain s.references = s.keeping s.Names :=
    fun s => Target.retain_eq_keeping (fun _ => Target.mem_references_iff)
  simp only [prune, hstage, hsprite]

end Project

end ScratchLegacy
