import Mathlib.SetTheory.Cardinal.Arithmetic
import ScratchLegacy.Proofs.BlockIds
import ScratchLegacy.Proofs.ProcedureSignatures

/-!
# Renaming the ids of a block table

The ids of a block table link its records: a record names the next one and the ones in
its slots. `BlockTable.rename f` is the table with other ids in all these places. When
different ids stay different, the links of the table are the same, so every recursion
over it takes the same course (`BlockTable.follow_rename`, `BlockTable.steps_rename`).

The blocks that are expanded from the two tables differ in their ids only. They do not
simply have the new ids, though: a variable in a slot is a block with an id made of its
owner and its slot. So the blocks are compared by the ids of their item numbers, which
are the ones that the translation looks at (`Block.Renames`), and
`BlockTable.exists_scripts_rename` says that the scripts agree in this sense.
-/

namespace ScratchLegacy

/-! ## Renaming -/

/-- A slot with the child under its new id. -/
def SlotValue.rename (f : String → String) : SlotValue → SlotValue
  | child id => child (f id)
  | literal parts => literal parts

/-- A record with the blocks that it names under their new ids. -/
def BlockRecord.rename (f : String → String) (r : BlockRecord) : BlockRecord :=
  { r with
    next? := r.next?.map f
    slots := r.slots.map (fun e => (e.1, e.2.rename f)) }

/-- **A table with other ids.** -/
def BlockTable.rename (f : String → String) (t : BlockTable) : BlockTable :=
  t.map (fun e => (f e.1, e.2.rename f))

/-- **Steps that fill a slot alike**, from tables with other ids. -/
inductive Step.Renames (f : String → String) : Step → Step → Prop where
  | fill (slot : String) {v v' : Input} (same : v.Renames f v') :
      Renames f (.fill slot v) (.fill slot v')
  | grow (slot : String) (statements : Bool) (head : String) :
      Renames f (.grow slot statements head) (.grow slot statements (f head))
  | inspect (head : String) : Renames f (.inspect head) (.inspect (f head))
  | sign (signature : Signature) : Renames f (.sign signature) (.sign signature)
  | fail (error error' : ScriptError) : Renames f (.fail error) (.fail error')

section Records

variable {f : String → String}

@[simp] theorem BlockRecord.mutation?_rename (r : BlockRecord) :
    (r.rename f).mutation? = r.mutation? := rfl

@[simp] theorem BlockRecord.isInlined_rename (r : BlockRecord) :
    (r.rename f).isInlined = r.isInlined := by
  unfold isInlined rename
  rw [Option.isNone_map]

/-- A prototype has the same signature under its new id. -/
theorem BlockRecord.signature_rename {id id' : String} {r : BlockRecord} {s : Signature}
    (h : r.signature id = .ok s) : (r.rename f).signature id' = .ok s := by
  unfold signature at h ⊢
  split at h
  · cases h
  · next m hm =>
    rw [mutation?_rename, hm]
    cases hp : m.proccode? <;> simp_all

/-- **Renaming back.** -/
theorem BlockTable.rename_rename {g : String → String} (h : ∀ id, g (f id) = id) (t : BlockTable) :
    (t.rename f).rename g = t := by
  have hslot : ∀ v : SlotValue, (v.rename f).rename g = v := by
    intro v
    cases v with
    | child id => exact congrArg SlotValue.child (h id)
    | literal parts => rfl
  have hrecord : ∀ r : BlockRecord, (r.rename f).rename g = r := by
    intro r
    simp only [BlockRecord.rename, List.map_map, Function.comp_def, hslot, Option.map_map, h,
      Option.map_id', List.map_id']
  simp only [rename, List.map_map, Function.comp_def, hrecord, h, List.map_id']

end Records

/-- **A literal stands for the same input**, whatever the id of its owner. -/
theorem renames_literalInput? (f : String → String) (owner owner' slot : String)
    (parts : List Json) :
    Option.Rel (Input.Renames f) (literalInput? owner slot parts) (literalInput? owner' slot parts) := by
  unfold literalInput?
  dsimp only
  split
  iterate 4 exact .some rfl
  · exact .some rfl
  · cases Color.ofHex? (Json.scalarText? parts[1]?) with
    | none => exact .none
    | some color => exact .some rfl
  · exact .some rfl
  · exact .some rfl
  · refine .some ?_
    simp [Input.Renames, Input.mapIds, Block.mapIds, mapSlotIds, keptIds, itemIds, Opcode.itemNumber]
  · refine .some ?_
    simp [Input.Renames, Input.mapIds, Block.mapIds, mapSlotIds, keptIds, itemIds, Opcode.itemNumber]
  iterate 4 exact .none

/-! ## Filling slots alike -/

namespace Filling

variable {f : String → String} {x x' y : Filling}

/-- **A step that is taken is taken with other ids**, when the chains are. -/
theorem exists_take_renames {chainOf chainOf' : String → Except ScriptError (List Block)}
    (hchain : ∀ head blocks, chainOf head = .ok blocks →
      ∃ blocks', chainOf' (f head) = .ok blocks' ∧ List.Forall₂ (Block.Renames f) blocks blocks')
    {s s' : Step} (hs : s.Renames f s') (hx : x'.mapIds keptIds = x.mapIds (itemIds f))
    (h : x.take chainOf s = .ok y) :
    ∃ y', x'.take chainOf' s' = .ok y' ∧ y'.mapIds keptIds = y.mapIds (itemIds f) := by
  obtain ⟨hinputs, hsignature⟩ := Filling.mk.inj hx
  cases hs with
  | fill slot same =>
    cases h
    refine ⟨_, rfl, ?_⟩
    simp only [mapIds, mapSlotIds_insert, hinputs, hsignature]
    rw [same]
  | grow slot statements head =>
    obtain ⟨blocks, hblocks, rfl⟩ := map_eq_ok_iff.mp h
    obtain ⟨blocks', hblocks', hsame⟩ := hchain head blocks hblocks
    refine ⟨_, map_eq_ok_iff.mpr ⟨blocks', hblocks', rfl⟩, ?_⟩
    rw [mapIds_grown, mapIds_grown, hx, map_eq_of_forall₂ hsame]
  | inspect head =>
    obtain ⟨blocks, hblocks, rfl⟩ := map_eq_ok_iff.mp h
    obtain ⟨blocks', hblocks', -⟩ := hchain head blocks hblocks
    exact ⟨_, map_eq_ok_iff.mpr ⟨blocks', hblocks', rfl⟩, hx⟩
  | sign signature =>
    cases h
    refine ⟨_, rfl, ?_⟩
    simp only [mapIds, hinputs]
  | fail => cases h

/-- **Steps that are taken are taken with other ids.** -/
theorem exists_foldlM_take_renames {chainOf chainOf' : String → Except ScriptError (List Block)}
    (hchain : ∀ head blocks, chainOf head = .ok blocks →
      ∃ blocks', chainOf' (f head) = .ok blocks' ∧ List.Forall₂ (Block.Renames f) blocks blocks')
    {steps steps' : List Step} (hsteps : List.Forall₂ (Step.Renames f) steps steps')
    (hx : x'.mapIds keptIds = x.mapIds (itemIds f))
    (h : steps.foldlM (take chainOf) x = .ok y) :
    ∃ y', steps'.foldlM (take chainOf') x' = .ok y'
      ∧ y'.mapIds keptIds = y.mapIds (itemIds f) := by
  induction hsteps generalizing x x' with
  | nil =>
    cases h
    exact ⟨x', rfl, hx⟩
  | cons hs _ ih =>
    rw [List.foldlM_cons] at h
    obtain ⟨z, hz, h⟩ := bind_eq_ok_iff.mp h
    obtain ⟨z', hz', hsame⟩ := exists_take_renames hchain hs hx hz
    obtain ⟨y', hy', hrest⟩ := ih hsame h
    refine ⟨y', ?_, hrest⟩
    rw [List.foldlM_cons]
    exact bind_eq_ok_iff.mpr ⟨z', hz', hy'⟩

end Filling

/-! ## Steps of a renamed table -/

/-- **Taking over a shadow alike.** -/
theorem Step.renames_adopt {f : String → String} (opcode : String) (fields : List (String × Input))
    {ss ss' : List Step} (h : List.Forall₂ (Step.Renames f) ss ss')
    (hflat : ∀ e ∈ fields, e.2.IsFlat) :
    List.Forall₂ (Step.Renames f) (adopt opcode fields ss) (adopt opcode fields ss') := by
  have hsame : ∀ e ∈ fields, e.2.Renames f e.2 := by
    intro e he
    rw [Input.Renames, Input.mapIds_of_isFlat _ (hflat e he), Input.mapIds_of_isFlat _ (hflat e he)]
  unfold adopt
  split
  · refine List.rel_append (List.rel_filterMap (fun s s' hs => ?_) h) ?_
    · cases hs with
      | fill | sign => exact .none
      | grow | inspect => exact .some (.inspect _)
      | fail => exact .some (.fail _ _)
    · cases hfind : Entries.find? "colorParam" fields with
      | none => exact .nil
      | some v => exact .cons (.fill _ (hsame _ (Entries.mem_of_find? hfind))) .nil
  · refine List.rel_append (List.rel_filterMap (fun s s' hs => ?_) h) ?_
    · cases hs with
      | fill slot same => exact .some (.fill slot same)
      | grow => exact .some (.grow _ _ _)
      | inspect => exact .some (.inspect _)
      | sign => exact .none
      | fail => exact .some (.fail _ _)
    · rw [List.forall₂_map_left_iff, List.forall₂_map_right_iff, List.forall₂_same]
      exact fun e he => .fill _ (hsame e he)

/-- Reading from entries with other keys and changed values. -/
theorem Entries.find?_map {α β : Type} {f : String → String} (hf : Function.Injective f)
    (g : α → β) (key : String) (entries : List (String × α)) :
    find? (f key) (entries.map (fun e => (f e.1, g e.2))) = (find? key entries).map g := by
  induction entries with
  | nil => rfl
  | cons e rest ih =>
    rw [List.map_cons, find?, find?, ih]
    simp only [hf.eq_iff]
    split <;> rfl

namespace BlockTable

variable {f : String → String} (hf : Function.Injective f) (t : BlockTable)

/-- A renamed table has as many records. -/
@[simp] theorem length_rename : (t.rename f).length = t.length := List.length_map _

include hf

/-- A record is found under its new id. -/
theorem record?_rename (id : String) :
    (t.rename f).record? (f id) = (t.record? id).map (BlockRecord.rename f) :=
  Entries.find?_map hf (BlockRecord.rename f) id t

/-- **The chain of a new id has the new ids of the chain.** -/
theorem follow_rename (head : String) : (t.rename f).follow (f head) = (t.follow head).map f := by
  have hfollow : ∀ room met id, (t.rename f).followFrom room (met.map f) (f id)
      = (t.followFrom room met id).map f := by
    intro room
    induction room with
    | zero => exact fun _ _ => rfl
    | succ room ih =>
      intro met id
      have hnext : ((t.rename f).record? (f id)).bind BlockRecord.next?
          = ((t.record? id).bind BlockRecord.next?).map f := by
        rw [record?_rename hf]
        cases t.record? id <;> rfl
      simp only [followFrom, List.mem_map_of_injective hf, hnext]
      split
      · rfl
      · cases (t.record? id).bind BlockRecord.next? with
        | none => rfl
        | some next => exact congrArg (f id :: ·) (ih (id :: met) next)
  rw [follow, follow, length_rename]
  exact hfollow _ [] head

/-- **The steps of a slot are alike** when those of an inlined shadow are. -/
theorem slotSteps_rename {inline inline' : String → String → BlockRecord → List Step}
    (hinline : ∀ id childOpcode child,
      List.Forall₂ (Step.Renames f) (inline id childOpcode child)
        (inline' (f id) childOpcode (child.rename f)))
    (owner owner' opcode : String) (entry : String × SlotValue) :
    List.Forall₂ (Step.Renames f) (t.slotSteps inline owner opcode entry)
      ((t.rename f).slotSteps inline' owner' opcode (entry.1, entry.2.rename f)) := by
  obtain ⟨slot, value⟩ := entry
  cases value with
  | literal parts =>
    show List.Forall₂ _ _ ((t.rename f).slotSteps inline' owner' opcode (slot, .literal parts))
    rw [slotSteps_literal, slotSteps_literal]
    have hinput := renames_literalInput? f owner owner' slot parts
    generalize literalInput? owner slot parts = v, literalInput? owner' slot parts = v' at hinput ⊢
    cases hinput with
    | none => exact .nil
    | some same => exact .cons (.fill slot same) .nil
  | child id =>
    show List.Forall₂ _ _ ((t.rename f).slotSteps inline' owner' opcode (slot, .child (f id)))
    have hrecord := t.record?_rename hf id
    cases hr : t.record? id with
    | none =>
      rw [hr] at hrecord
      rw [slotSteps_of_none hr, slotSteps_of_none hrecord]
      exact .cons (.fail _ _) .nil
    | some r =>
      rw [hr] at hrecord
      by_cases hi : r.isInlined
      · have hi' : (r.rename f).isInlined := r.isInlined_rename.trans hi
        cases ho : r.opcode? with
        | none =>
          rw [slotSteps_of_opcode_none hr hi ho, slotSteps_of_opcode_none hrecord hi' ho]
          exact .cons (.fail _ _) .nil
        | some childOpcode =>
          by_cases hp : childOpcode = Opcode.prototype
          · subst hp
            rw [slotSteps_of_prototype hr hi ho, slotSteps_of_prototype hrecord hi' ho]
            cases hs : r.signature id with
            | error error =>
              cases hs' : (r.rename f).signature (f id) with
              | error error' => exact .cons (.fail _ _) .nil
              | ok signature =>
                obtain ⟨m, proccode, hm, hproccode⟩ :=
                  BlockRecord.exists_signature_eq_ok_iff.mp ⟨signature, hs'⟩
                obtain ⟨signature', hsignature⟩ := BlockRecord.exists_signature_eq_ok_iff.mpr
                  ⟨m, proccode, (r.mutation?_rename).symm.trans hm, hproccode⟩
                cases hs.symm.trans hsignature
            | ok signature =>
              rw [BlockRecord.signature_rename hs]
              exact .cons (.sign _) .nil
          · rw [slotSteps_of_shadow hr hi ho hp, slotSteps_of_shadow hrecord hi' ho hp]
            exact hinline id childOpcode r
      · have hi' : ¬ (r.rename f).isInlined := by rwa [BlockRecord.isInlined_rename]
        rw [slotSteps_of_not_inlined hr hi, slotSteps_of_not_inlined hrecord hi']
        exact .cons (.grow _ _ _) .nil

/-- The steps of a record are alike when those of an inlined shadow are. -/
theorem steps_rename_of_inlined {room : Nat} {trail trail' : List String}
    (hinlined : ∀ id childOpcode child,
      List.Forall₂ (Step.Renames f) (t.inlined room trail id childOpcode child)
        ((t.rename f).inlined room trail' (f id) childOpcode (child.rename f)))
    (owner owner' opcode : String) (r : BlockRecord) :
    List.Forall₂ (Step.Renames f) (t.steps room trail owner opcode r)
      ((t.rename f).steps room trail' owner' opcode (r.rename f)) := by
  rw [steps_eq_flatMap, steps_eq_flatMap, BlockRecord.rename]
  refine List.rel_flatMap (R := fun e e' => e' = (e.1, SlotValue.rename f e.2)) ?_ ?_
  · rw [List.forall₂_map_right_iff, List.forall₂_same]
    exact fun _ _ => rfl
  · rintro e _ rfl
    exact t.slotSteps_rename hf hinlined owner owner' opcode e

/-- **The steps of a record are alike**, by induction on the number that bounds the
inlining. -/
theorem steps_rename (room : Nat) (trail : List String) (owner owner' opcode : String)
    (r : BlockRecord) :
    List.Forall₂ (Step.Renames f) (t.steps room trail owner opcode r)
      ((t.rename f).steps room (trail.map f) owner' opcode (r.rename f)) := by
  induction room generalizing trail owner owner' opcode r with
  | zero =>
    refine t.steps_rename_of_inlined hf (fun id childOpcode child => ?_) owner owner' opcode r
    simp only [inlined, List.mem_map_of_injective hf]
    split <;> exact .cons (.fail _ _) .nil
  | succ room ih =>
    refine t.steps_rename_of_inlined hf (fun id childOpcode child => ?_) owner owner' opcode r
    simp only [inlined, List.mem_map_of_injective hf]
    split
    · exact .cons (.fail _ _) .nil
    · exact Step.renames_adopt childOpcode _ (ih (id :: trail) id (f id) childOpcode child)
        (fun e he => BlockRecord.isFlat_of_mem_fieldInputs he)

/-! ## Expansion -/

/-- **What is expanded from a table is expanded from the renamed table**, and differs in
its ids. -/
theorem exists_expand_rename {room : Nat} {opened : List String} {id : String} {b : Block}
    (h : t.expand room opened id = .ok b) :
    ∃ b', (t.rename f).expand room (opened.map f) (f id) = .ok b' ∧ b.Renames f b' := by
  induction room generalizing opened id b with
  | zero => exact absurd ⟨b, h⟩ not_expands_zero
  | succ room ih =>
    obtain ⟨r, opcode, x, found, hnew, op, hx, rfl⟩ := expand_succ_eq_ok_iff.mp h
    have hchain : ∀ head blocks, t.chainWithin room (id :: opened) head = .ok blocks →
        ∃ blocks', (t.rename f).chainWithin room (f id :: opened.map f) (f head) = .ok blocks'
          ∧ List.Forall₂ (Block.Renames f) blocks blocks' := by
      intro head blocks hblocks
      obtain ⟨blocks', hblocks', hsame⟩ :=
        exists_forall₂ (mapM_eq_ok_iff.mp hblocks) (fun _ _ => ih)
      refine ⟨blocks', ?_, hsame⟩
      rw [chainWithin, mapM_eq_ok_iff, t.follow_rename hf, List.forall₂_map_left_iff]
      exact hblocks'
    have hsteps := t.steps_rename hf t.length [] id (f id) opcode r
    have hempty : Filling.mapIds keptIds {} = Filling.mapIds (itemIds f) {} := rfl
    obtain ⟨x', hx', hsame⟩ := Filling.exists_foldlM_take_renames hchain hsteps hempty hx
    refine ⟨x'.block (f id) opcode (r.rename f), expand_succ_eq_ok_iff.mpr
      ⟨r.rename f, opcode, x', ?_, ?_, op, ?_, rfl⟩, ?_⟩
    · rw [t.record?_rename hf, found]
      rfl
    · rwa [List.mem_map_of_injective hf]
    · rwa [length_rename]
    · rw [Block.Renames, Filling.mapIds_block, Filling.mapIds_block, hsame]
      rfl

/-- **The scripts of a renamed table** are the scripts of the table with other ids. -/
theorem exists_scripts_rename {ss : List Script} (h : t.scripts = .ok ss) :
    ∃ ss', (t.rename f).scripts = .ok ss' ∧ List.Forall₂ (Script.Renames f) ss ss' := by
  have hheads : (t.rename f).filter (fun e => e.2.isHead)
      = (t.filter (fun e => e.2.isHead)).map (fun e => (f e.1, e.2.rename f)) := by
    rw [rename, List.filter_map]
    rfl
  obtain ⟨ss', hss', hsame⟩ := exists_forall₂ (s := fun e s' =>
    (t.rename f).chain (f e.1) = .ok s'.blocks ∧ s'.x = e.2.x ∧ s'.y = e.2.y)
    (q := Script.Renames f) (scripts_eq_ok_iff.mp h) (fun e s ⟨hchain, hx, hy⟩ => by
      obtain ⟨blocks', hblocks', hsame⟩ := exists_forall₂ (mapM_eq_ok_iff.mp hchain)
        (fun _ _ => t.exists_expand_rename hf)
      refine ⟨⟨e.2.x, e.2.y, blocks'⟩, ⟨?_, rfl, rfl⟩, ?_⟩
      · rw [chain, mapM_eq_ok_iff, t.follow_rename hf, List.forall₂_map_left_iff, length_rename]
        exact hblocks'
      · rw [Script.Renames, Script.mapIds, Script.mapIds, map_eq_of_forall₂ hsame, hx, hy])
  refine ⟨ss', scripts_eq_ok_iff.mpr ?_, hsame⟩
  rw [hheads, List.forall₂_map_left_iff]
  exact hss'

end BlockTable

/-! ## Renamings of the ids of a table -/

/-- The id of a child. -/
def SlotValue.child? : SlotValue → Option String
  | child id => some id
  | literal _ => none

/-- **The ids in a table**: those of its records, and those that the records name. -/
def BlockTable.ids (t : BlockTable) : List String :=
  t.flatMap (fun e => e.1 :: (e.2.next?.toList ++ e.2.slots.filterMap (fun s => s.2.child?)))

/-- **A renaming of some ids that keeps them apart** is that of a permutation. -/
theorem exists_perm_of_injOn {f : String → String} {ids : List String}
    (hf : Set.InjOn f {id | id ∈ ids}) : ∃ e : Equiv.Perm String, ∀ id ∈ ids, e id = f id := by
  have hinfinite : Infinite String :=
    Infinite.of_injective String.ofList (fun _ _ h => String.ofList_injective h)
  have hfew : Cardinal.mk {id | id ∈ ids} < Cardinal.mk String :=
    (Cardinal.lt_aleph0_iff_set_finite.mpr (List.finite_toSet ids)).trans_le
      (Cardinal.aleph0_le_mk String)
  obtain ⟨e, he⟩ := Cardinal.extend_function_of_lt ⟨fun id => f id.1, hf.injective⟩ hfew ⟨.refl _⟩
  exact ⟨e, fun id hid => he ⟨id, hid⟩⟩

namespace BlockTable

variable {f : String → String} {t : BlockTable}

/-- Only the ids in a table count for a renaming. -/
theorem rename_congr {g : String → String} (h : ∀ id ∈ t.ids, f id = g id) :
    t.rename f = t.rename g := by
  refine List.map_congr_left (fun e he => ?_)
  have hids := List.forall_mem_flatMap.mp h e he
  rw [List.forall_mem_cons, List.forall_mem_append] at hids
  obtain ⟨hid, hnext, hslots⟩ := hids
  have hnext' : e.2.next?.map f = e.2.next?.map g :=
    Option.map_congr (fun next hmem => hnext next (Option.mem_toList.mpr hmem))
  have hslots' : e.2.slots.map (fun s => (s.1, s.2.rename f))
      = e.2.slots.map (fun s => (s.1, s.2.rename g)) := by
    refine List.map_congr_left (fun s hs => Prod.ext rfl ?_)
    cases hvalue : s.2 with
    | literal parts => rfl
    | child id =>
      exact congrArg SlotValue.child
        (hslots id (List.mem_filterMap.mpr ⟨s, hs, by rw [hvalue]; rfl⟩))
  rw [BlockRecord.rename, BlockRecord.rename, hid, hnext', hslots']

/-- The item numbers of the scripts have ids of the table. -/
theorem mem_ids_of_itemNumber {scripts : List Script} (h : t.scripts = .ok scripts) {s : Script}
    (hs : s ∈ scripts) {root b : Block} (hroot : root ∈ s.blocks) (hb : b ∈ root.visit)
    (hitem : b.opcode = Opcode.itemNumber) : b.id ∈ t.ids := by
  rcases expanded_of_scripts h hs hroot (Block.mem_visit_iff.mp hb) with
    ⟨room, opened, id, hexpand⟩ | hdata
  · cases room with
    | zero => exact absurd ⟨b, hexpand⟩ not_expands_zero
    | succ room =>
      obtain ⟨r, _, _, found, _⟩ := expand_succ_eq_ok_iff.mp hexpand
      rw [id_of_expand hexpand]
      exact List.mem_flatMap.mpr ⟨_, mem_of_record? found, List.mem_cons_self⟩
  · rcases Block.opcode_of_isDataReporter hdata with hopcode | hopcode <;>
    · rw [hopcode] at hitem
      exact absurd hitem (by decide)

section InjOn

variable (hf : Set.InjOn f {id | id ∈ t.ids})

include hf

/-- **The scripts of a table whose ids are renamed** are its scripts with other ids. -/
theorem exists_renames_of_injOn {ss : List Script} (h : t.scripts = .ok ss) :
    ∃ ss', (t.rename f).scripts = .ok ss' ∧ List.Forall₂ (Script.Renames f) ss ss' := by
  obtain ⟨e, he⟩ := exists_perm_of_injOn hf
  obtain ⟨ss', hss', hsame⟩ := t.exists_scripts_rename e.injective h
  refine ⟨ss', rename_congr he ▸ hss', ?_⟩
  have hmem : List.Forall₂ (fun s s' => s ∈ ss ∧ s.Renames e s') ss ss' :=
    (List.forall₂_and_left _ _).mpr ⟨fun _ hs => hs, hsame⟩
  refine hmem.imp (fun s s' ⟨hs, hrenames⟩ => ?_)
  have hblocks : s.mapIds (itemIds e) = s.mapIds (itemIds f) := by
    refine congrArg (fun blocks => Script.mk s.x s.y blocks) (List.map_congr_left ?_)
    refine fun root hroot => Block.mapIds_congr (fun b hb => ?_)
    unfold itemIds
    split
    · next hitem => exact he _ (mem_ids_of_itemNumber h hs hroot hb hitem)
    · rfl
  exact Eq.trans hrenames hblocks

/-- **A table has scripts when the renamed one has.** -/
theorem exists_scripts_of_injOn {ss' : List Script} (h : (t.rename f).scripts = .ok ss') :
    ∃ ss, t.scripts = .ok ss := by
  obtain ⟨e, he⟩ := exists_perm_of_injOn hf
  rw [← rename_congr he] at h
  obtain ⟨ss, hss, -⟩ := (t.rename e).exists_scripts_rename e.symm.injective h
  rw [rename_rename e.symm_apply_apply] at hss
  exact ⟨ss, hss⟩

end InjOn

end BlockTable

end ScratchLegacy
