import ScratchLegacy.Proofs.ScriptGrowth

/-!
# Signatures of procedures

A definition says what its procedure is called and what its parameters are, but
it does not say so itself: the data is in a prototype, a shadow in one of its
slots. `BlockTable.Declares` names the prototype whose data counts – the last one
among the slots, should there be several – and every signature is made from that
data (`BlockTable.exists_declares_of_expand`).

A call does not look at its slots for a signature. It has an argument for every
id that its own record lists, whatever its slots hold
(`BlockTable.call_of_expand`).

All blocks within the scripts of a table are expanded from their records
(`BlockTable.expanded_of_scripts`), so both hold for every definition and every
call of a target.
-/

namespace ScratchLegacy

/-! ## The signature that steps give -/

/-- The signature that a step gives. -/
def Step.signature? : Step → Option Signature
  | sign signature => some signature
  | _ => none

/-- Taking over a shadow gives no signature. -/
theorem Step.filterMap_signature?_adopt (opcode : String) (fields : List (String × Input))
    (inner : List Step) : (adopt opcode fields inner).filterMap signature? = [] := by
  have hinherited : (inner.filterMap inherited?).filterMap signature? = [] := by
    rw [List.filterMap_filterMap, List.filterMap_eq_nil_iff]
    intro s _
    cases s <;> rfl
  have hinspection : (inner.filterMap inspection?).filterMap signature? = [] := by
    rw [List.filterMap_filterMap, List.filterMap_eq_nil_iff]
    intro s _
    cases s <;> rfl
  have hfields : (fields.map (fun f => fill f.1 f.2)).filterMap signature? = [] := by
    rw [List.filterMap_map, List.filterMap_eq_nil_iff]
    exact fun _ _ => rfl
  unfold adopt
  split
  · rw [List.filterMap_append, hinspection, List.nil_append]
    cases Entries.find? "colorParam" fields <;> rfl
  · rw [List.filterMap_append, hinherited, hfields, List.nil_append]

namespace Filling

variable {chainOf : String → Except ScriptError (List Block)}

/-- A chain leaves the signature as it is. -/
theorem signature_grown (f : Filling) (slot : String) (statements : Bool) (blocks : List Block) :
    (f.grown slot statements blocks).signature = f.signature := by
  unfold grown
  split
  · split <;> rfl
  · rfl
  · rfl

/-- A step that is taken gives its signature, or leaves the one that there is. -/
theorem signature_of_take {f f' : Filling} {s : Step} (h : f.take chainOf s = .ok f') :
    f'.signature = s.signature?.or f.signature := by
  cases s with
  | fill slot input =>
    cases h
    rfl
  | grow slot statements head =>
    obtain ⟨blocks, _, rfl⟩ := map_eq_ok_iff.mp h
    exact signature_grown f slot statements blocks
  | inspect head =>
    obtain ⟨_, _, rfl⟩ := map_eq_ok_iff.mp h
    rfl
  | sign signature =>
    cases h
    rfl
  | fail error => cases h

/-- **The last signature that a step gives stays.** -/
theorem signature_of_foldlM_take {steps : List Step} {f f' : Filling}
    (h : steps.foldlM (take chainOf) f = .ok f') :
    f'.signature = (steps.filterMap Step.signature?).getLast?.or f.signature := by
  induction steps generalizing f with
  | nil =>
    cases h
    rfl
  | cons s steps ih =>
    rw [List.foldlM_cons] at h
    obtain ⟨f₁, hs, h⟩ := bind_eq_ok_iff.mp h
    rw [ih h, signature_of_take hs]
    cases hw : s.signature? with
    | none => rw [List.filterMap_cons_none hw, Option.none_or]
    | some signature =>
      rw [List.filterMap_cons_some hw, List.getLast?_cons]
      cases (steps.filterMap Step.signature?).getLast? <;> rfl

end Filling

/-- The signature of a prototype is made from its procedure data. -/
theorem BlockRecord.mutation_of_signature {id : String} {r : BlockRecord} {s : Signature}
    (h : (r.signature id).toOption = some s) :
    ∃ m, r.mutation? = some m ∧ m.proccode? = some s.proccode
      ∧ s.parameters = Proccode.parameters (Proccode.tokens s.proccode.toList) m.argumentNames
          m.argumentDefaults := by
  unfold signature at h
  cases hm : r.mutation? with
  | none =>
    rw [hm] at h
    cases h
  | some m =>
    cases hp : m.proccode? with
    | none =>
      simp only [hm, hp] at h
      cases h
    | some p =>
      simp only [hm, hp] at h
      cases h
      exact ⟨m, rfl, hp, rfl⟩

/-! ## The signature that slots give -/

namespace BlockTable

variable {t : BlockTable}

/-- The record of an id that a slot takes a signature from: an inlined
prototype. -/
def prototype? (t : BlockTable) (id : String) : Option BlockRecord :=
  (t.record? id).filter (fun r => r.isInlined && r.opcode? == some Opcode.prototype)

/-- **The signature that a slot gives**: that of the prototype that it names. -/
def slotSignature? (t : BlockTable) : String × SlotValue → Option Signature
  | (_, .child id) => (t.prototype? id).bind (fun r => (r.signature id).toOption)
  | (_, .literal _) => none

/-- An inlined shadow gives its owner no signature. -/
theorem filterMap_signature?_inlined (room : Nat) (trail : List String) (id opcode : String)
    (child : BlockRecord) :
    (t.inlined room trail id opcode child).filterMap Step.signature? = [] := by
  unfold inlined
  split
  · rfl
  · cases room with
    | zero => rfl
    | succ room => exact Step.filterMap_signature?_adopt _ _ _

/-- **The steps of a slot give its signature.** -/
theorem filterMap_signature?_slotSteps (room : Nat) (trail : List String)
    (owner opcode : String) (entry : String × SlotValue) :
    (t.slotSteps (t.inlined room trail) owner opcode entry).filterMap Step.signature?
      = (t.slotSignature? entry).toList := by
  obtain ⟨slot, value⟩ := entry
  cases value with
  | literal parts =>
    rw [slotSteps_literal]
    cases literalInput? owner slot parts <;> rfl
  | child id =>
    show _ = (((t.record? id).filter _).bind _).toList
    cases hchild : t.record? id with
    | none =>
      rw [slotSteps_of_none hchild]
      rfl
    | some child =>
      by_cases hi : child.isInlined
      · cases ho : child.opcode? with
        | none =>
          rw [slotSteps_of_opcode_none hchild hi ho]
          simp [Option.filter_some, ho, Step.signature?]
        | some childOpcode =>
          by_cases hp : childOpcode = Opcode.prototype
          · subst hp
            rw [slotSteps_of_prototype hchild hi ho]
            cases hs : child.signature id <;>
              simp [Option.filter_some, hi, ho, hs, Step.signature?, Except.toOption]
          · rw [slotSteps_of_shadow hchild hi ho hp, filterMap_signature?_inlined]
            simp [Option.filter_some, ho, hp]
      · rw [slotSteps_of_not_inlined hchild hi]
        simp [Option.filter_some, hi, Step.signature?]

/-- **The signature of a block is the last one that its slots give.** -/
theorem signature_of_foldlM_steps {room : Nat} {trail : List String} {owner opcode : String}
    {record : BlockRecord} {f : Filling} {chainOf : String → Except ScriptError (List Block)}
    (h : (t.steps room trail owner opcode record).foldlM (Filling.take chainOf) {} = .ok f) :
    f.signature = (record.slots.filterMap t.slotSignature?).getLast? := by
  rw [Filling.signature_of_foldlM_take h, Option.or_none, steps_eq_flatMap,
    List.filterMap_flatMap]
  congr 1
  rw [List.filterMap_eq_flatMap_toList]
  exact List.flatMap_congr (fun entry _ => filterMap_signature?_slotSteps _ _ _ _ entry)

end BlockTable

/-! ## The blocks of a script -/

/-- There is an argument for each id. -/
theorem length_callArguments (ids : List String) (inputs : List (String × Input)) :
    (callArguments ids inputs).length = ids.length := by
  induction ids generalizing inputs with
  | nil => rfl
  | cons id ids ih => rw [callArguments, List.length_cons, ih, List.length_cons]

/-- What an input of a block holds is held by one of those that the block has
its property for. -/
theorem Block.All.exists_holds {b child : Block} {P : Input → Prop} {slot : String}
    {input : Input} (h : b.All P) (hmem : (slot, input) ∈ b.inputs) (hholds : input.Holds child) :
    ∃ input, P input ∧ input.Holds child := by
  unfold All at h
  split at h
  · obtain ⟨values, hinputs, hvalues⟩ := h
    rw [hinputs] at hmem
    cases List.mem_singleton.mp hmem
    cases hholds with
    | arguments hvalue hholds => exact ⟨_, hvalues _ hvalue, hholds⟩
  · exact ⟨input, h slot input hmem, hholds⟩

/-- What a chain as an input holds is one of its blocks. -/
theorem Input.mem_of_holds_ofChain {statements : Bool} {blocks : List Block} {child : Block}
    (h : (Input.ofChain statements blocks).Holds child) : child ∈ blocks := by
  unfold ofChain at h
  split at h
  · cases statements
    · cases h
      exact List.mem_cons_self
    · cases h with
      | stack hmem => exact hmem
  · cases h with
    | stack hmem => exact hmem

/-- The reporter of a literal is one of a variable or of a list. -/
theorem Block.opcode_of_isDataReporter {b : Block} (h : (Input.block b).IsDataReporter) :
    b.opcode = "data_variable" ∨ b.opcode = "data_listcontents" := by
  obtain ⟨id, ref, heq | heq⟩ := h
  · exact .inl (Input.block.inj heq ▸ rfl)
  · exact .inr (Input.block.inj heq ▸ rfl)

/-- The reporter of a literal has no other block within it. -/
theorem Block.Within.eq_of_isDataReporter {b child : Block} (h : b.Within child)
    (hdata : (Input.block child).IsDataReporter) : b = child := by
  cases h with
  | self => rfl
  | slot hmem hholds _ =>
    obtain ⟨id, ref, heq | heq⟩ := hdata <;>
    · cases heq
      cases List.mem_singleton.mp hmem
      cases hholds

namespace BlockTable

variable {t : BlockTable}

/-- **A block within an expanded one is expanded too**, or is the reporter of a
literal. -/
theorem expanded_of_within {room : Nat} {opened : List String} {id : String} {root b : Block}
    (h : t.expand room opened id = .ok root) (hb : b.Within root) :
    (∃ room opened id, t.expand room opened id = .ok b) ∨ (Input.block b).IsDataReporter := by
  induction hb generalizing room opened id with
  | self => exact .inl ⟨room, opened, id, h⟩
  | @slot root child slot input hmem hholds hwithin ih =>
    cases room with
    | zero => exact absurd ⟨root, h⟩ not_expands_zero
    | succ room =>
      obtain ⟨record, opcode, f, found, _, op, hf, hroot⟩ := expand_succ_eq_ok_iff.mp h
      obtain ⟨chains, hchains⟩ := exists_chains (t.chainWithin room (id :: opened))
      have hall : root.All (t.Origin chains (.block id)) :=
        hroot ▸ all_block (fun w hw => origin_of_mem_inputs found op hf hchains hw)
      obtain ⟨input, horigin, hholds⟩ := hall.exists_holds hmem hholds
      cases horigin with
      | flat hflat => cases hholds <;> exact hflat.elim
      | chain hangs =>
        have hchain := chainWithin_of_hangs found hf hchains hangs
        obtain ⟨id, hid⟩ :=
          exists_expand_of_mem_chainWithin hchain (Input.mem_of_holds_ofChain hholds)
        exact ih hid
      | reporter _ data =>
        obtain ⟨id, ref, rfl | rfl⟩ := data <;>
        · cases hholds
          refine .inr ?_
          rw [hwithin.eq_of_isDataReporter ⟨id, ref, by simp⟩]
          exact ⟨id, ref, by simp⟩

/-- **The blocks of the scripts of a table are expanded**, at any depth, or are
reporters of literals. -/
theorem expanded_of_scripts {scripts : List Script} (h : t.scripts = .ok scripts)
    {s : Script} (hs : s ∈ scripts) {root b : Block} (hroot : root ∈ s.blocks)
    (hb : b.Within root) :
    (∃ room opened id, t.expand room opened id = .ok b) ∨ (Input.block b).IsDataReporter := by
  obtain ⟨⟨head, record⟩, _, hhead⟩ := exists_of_mem_right (mapM_eq_ok_iff.mp h) hs
  cases hchain : t.chain head with
  | error error =>
    simp only [hchain] at hhead
    cases hhead
  | ok blocks =>
    simp only [hchain] at hhead
    cases hhead
    obtain ⟨id, hid⟩ := exists_expand_of_mem_chainWithin hchain hroot
    exact expanded_of_within hid hb

/-! ## Definitions and calls -/

/-- **A definition takes its signature from a prototype** with this procedure
data: that of the last prototype among its slots. -/
inductive Declares (t : BlockTable) (definition : String) (m : Mutation) : Prop where
  | intro {record prototype : BlockRecord} {slot id : String}
      {before after : List (String × SlotValue)} (found : t.record? definition = some record)
      (split : record.slots = before ++ (slot, .child id) :: after)
      (named : t.prototype? id = some prototype) (mutation : prototype.mutation? = some m)
      (last : ∀ e ∈ after, t.slotSignature? e = none) : Declares t definition m

/-- **The signature of a block that is no call** is the last one that the slots
of its record give. -/
theorem signature_of_expand {room : Nat} {opened : List String} {id : String} {b : Block}
    (h : t.expand room opened id = .ok b) (hcall : b.opcode ≠ Opcode.call) :
    ∃ record, t.record? b.id = some record
      ∧ b.signature = (record.slots.filterMap t.slotSignature?).getLast? := by
  cases room with
  | zero => exact absurd ⟨b, h⟩ not_expands_zero
  | succ room =>
    obtain ⟨record, opcode, f, found, _, _, hf, rfl⟩ := expand_succ_eq_ok_iff.mp h
    rw [Filling.opcode_block] at hcall
    refine ⟨record, by rwa [Filling.id_block], ?_⟩
    rw [Filling.block, if_neg hcall]
    exact signature_of_foldlM_steps hf

/-- **A signature comes from the last prototype** that the block names. -/
theorem exists_declares_of_expand {room : Nat} {opened : List String} {id : String} {b : Block}
    (h : t.expand room opened id = .ok b) (hcall : b.opcode ≠ Opcode.call) {s : Signature}
    (hs : b.signature = some s) :
    ∃ m, t.Declares b.id m ∧ m.proccode? = some s.proccode
      ∧ s.parameters = Proccode.parameters (Proccode.tokens s.proccode.toList) m.argumentNames
          m.argumentDefaults := by
  obtain ⟨record, found, hsignature⟩ := signature_of_expand h hcall
  rw [hsignature, List.getLast?_eq_some_iff] at hs
  obtain ⟨earlier, hs⟩ := hs
  obtain ⟨before, later, hslots, _, hlater⟩ := List.filterMap_eq_append_iff.mp hs
  obtain ⟨between, ⟨slot, value⟩, after, hafter, _, hentry, hlast⟩ :=
    List.filterMap_eq_cons_iff.mp hlater
  cases value with
  | literal parts => cases hentry
  | child child =>
    obtain ⟨prototype, hprototype, hok⟩ := Option.bind_eq_some_iff.mp hentry
    obtain ⟨m, hm, hp, hparameters⟩ := BlockRecord.mutation_of_signature hok
    have hsplit : record.slots = (before ++ between) ++ (slot, .child child) :: after := by
      rw [hslots, hafter, List.append_assoc]
    exact ⟨m, .intro found hsplit hprototype hm (List.filterMap_eq_nil_iff.mp hlast), hp,
      hparameters⟩

/-- **A call holds its arguments**, one for each id that its record lists. -/
theorem call_of_expand {room : Nat} {opened : List String} {id : String} {b : Block}
    (h : t.expand room opened id = .ok b) (hcall : b.opcode = Opcode.call) :
    ∃ record values, t.record? b.id = some record ∧ b.inputs = [("INPUTS", .arguments values)]
      ∧ values.length = record.argumentIds.length := by
  cases room with
  | zero => exact absurd ⟨b, h⟩ not_expands_zero
  | succ room =>
    obtain ⟨record, opcode, f, found, _, _, hf, rfl⟩ := expand_succ_eq_ok_iff.mp h
    rw [Filling.opcode_block] at hcall
    have hinputs : (f.block id opcode record).inputs = [("INPUTS", .arguments
        (callArguments record.argumentIds
          (SlotMap.insertAll f.inputs (record.fieldInputs opcode))))] := by
      rw [Filling.block, if_pos hcall]
      rfl
    exact ⟨record, _, by rwa [Filling.id_block], hinputs, length_callArguments _ _⟩

end BlockTable

end ScratchLegacy
