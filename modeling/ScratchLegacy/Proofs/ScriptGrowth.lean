import ScratchLegacy.Proofs.BlockTree
import ScratchLegacy.Proofs.SlotWriting

/-!
# Scripts are the trees of a table

When the scripts of a table can be rebuilt, nothing of the graph below their
heads is lost, doubled or moved. `BlockTable.Grown` says so of one block and
everything below it: the block has the opcode of its record, every chain that
hangs from it is grown whole, a chain that its slots put under a key is what
the key holds, and no slot holds a block that is not one of these chains or
the reporter of a literal. In particular a shadow that is inlined does not
become a block.

Every block that is expanded is grown (`BlockTable.grown_of_expand`), by
induction on the number that bounds the nesting, and with it every script is
the tree of its head (`BlockTable.scripts_grown`).
-/

namespace ScratchLegacy

/-! ## Literals and fields -/

/-- **The reporter that a variable or a list in a slot stands for.** -/
def Input.IsDataReporter (input : Input) : Prop :=
  ∃ id ref, input = .block { id := id, opcode := "data_variable"
                             inputs := [("VARIABLE", .variableRef ref)] }
    ∨ input = .block { id := id, opcode := "data_listcontents", inputs := [("LIST", .listRef ref)] }

/-- A literal is flat or a reporter. -/
theorem isFlat_or_isDataReporter_of_literalInput? {owner slot : String} {parts : List Json}
    {input : Input} (h : literalInput? owner slot parts = some input) :
    input.IsFlat ∨ input.IsDataReporter := by
  unfold literalInput? at h
  split at h
  case h_5 =>
    cases h
    exact .inl trivial
  case h_6 =>
    obtain ⟨color, _, rfl⟩ := Option.map_eq_some_iff.mp h
    exact .inl trivial
  case h_9 =>
    cases h
    exact .inr ⟨_, _, .inl rfl⟩
  case h_10 =>
    cases h
    exact .inr ⟨_, _, .inr rfl⟩
  all_goals
    cases h
  all_goals exact .inl trivial

/-- A field is flat. -/
theorem BlockRecord.isFlat_of_mem_fieldInputs {r : BlockRecord} {opcode : String}
    {w : String × Input} (h : w ∈ r.fieldInputs opcode) : w.2.IsFlat := by
  unfold fieldInputs at h
  split at h
  · obtain ⟨f, _, rfl⟩ := List.mem_map.mp h
    show (fieldInput (Opcode.fieldKind? opcode f.1) f.2).IsFlat
    unfold fieldInput
    split <;> trivial
  · cases h

/-! ## The arguments of a call -/

/-- A chain as an argument stays what it is. -/
theorem callArgument_ofChain (statements : Bool) (blocks : List Block) :
    callArgument (.ofChain statements blocks) = .ofChain statements blocks := by
  unfold Input.ofChain
  split
  · cases statements <;> rfl
  · rfl

/-- An argument is flat when the input is, and otherwise the input. -/
theorem isFlat_or_callArgument_eq (input : Input) :
    (callArgument input).IsFlat ∨ callArgument input = input := by
  unfold callArgument
  split
  · split <;> exact .inl trivial
  · split <;> exact .inl trivial
  · exact .inr rfl

/-- **An argument is what its id holds**, at the first place of the id. -/
theorem getElem?_callArguments {ids : List String} {inputs : List (String × Input)} {key : String}
    {i : Nat} {input : Input} (hi : ids.idxOf? key = some i)
    (hinput : SlotMap.find? key inputs = some input) :
    (callArguments ids inputs)[i]? = some (callArgument input) := by
  induction ids generalizing inputs i with
  | nil => cases hi
  | cons id ids ih =>
    rw [List.idxOf?_cons] at hi
    split at hi
    · next heq =>
      cases hi
      rw [beq_iff_eq.mp heq, callArguments, hinput]
      rfl
    · next hne =>
      obtain ⟨j, hj, rfl⟩ := Option.map_eq_some_iff.mp hi
      rw [callArguments, List.getElem?_cons_succ]
      refine ih hj ?_
      rw [SlotMap.find?_erase_of_ne (fun heq => hne (beq_iff_eq.mpr heq)), hinput]

/-- An argument comes from one of the inputs, or there was none. -/
theorem mem_callArguments {ids : List String} {inputs : List (String × Input)} {v : Input}
    (h : v ∈ callArguments ids inputs) :
    v = .boolean false ∨ ∃ w ∈ inputs, v = callArgument w.2 := by
  induction ids generalizing inputs with
  | nil => cases h
  | cons id ids ih =>
    rw [callArguments] at h
    rcases List.mem_cons.mp h with rfl | h
    · cases hinput : SlotMap.find? id inputs with
      | none => exact .inl rfl
      | some input => exact .inr ⟨_, SlotMap.mem_of_find? hinput, rfl⟩
    · rcases ih h with rfl | ⟨w, hw, rfl⟩
      · exact .inl rfl
      · exact .inr ⟨w, SlotMap.mem_of_mem_erase hw, rfl⟩

/-! ## Where inputs come from -/

namespace BlockTable

variable {t : BlockTable} {chains : String → List Block}

/-- **A place carries a literal**: this input fills a slot of the place, or of
a shadow that is inlined into it. -/
inductive Carries (t : BlockTable) : Place → Input → Prop where
  /-- The slot is one of the place itself. -/
  | slot {p : Place} {record : BlockRecord} {slot : String} {parts : List Json} {input : Input}
      (found : t.record? p.id = some record) (reads : t.ReadsSlots p)
      (mem : (slot, SlotValue.literal parts) ∈ record.slots)
      (stored : literalInput? p.id slot parts = some input) : Carries t p input
  /-- The slot is one of an inlined shadow. -/
  | shadow {p : Place} {id : String} {input : Input} (link : t.SlotLink p (.shadow id))
      (carries : Carries t (.shadow id) input) : Carries t p input

/-- **What an input of a block can be**: flat, a chain that hangs from the
place of the block, or the reporter of a literal that the place carries. -/
inductive Origin (t : BlockTable) (chains : String → List Block) (p : Place) : Input → Prop where
  | flat {input : Input} (flat : input.IsFlat) : Origin t chains p input
  | chain {statements : Bool} {head : String} (hangs : t.Hangs p statements head) :
      Origin t chains p (.ofChain statements (chains head))
  | reporter {input : Input} (carries : t.Carries p input) (data : input.IsDataReporter) :
      Origin t chains p input

/-- What comes from an inlined shadow comes from its owner. -/
theorem Origin.shadow {p : Place} {id : String} {input : Input}
    (h : t.Origin chains (.shadow id) input) (link : t.SlotLink p (.shadow id)) :
    t.Origin chains p input := by
  cases h with
  | flat flat => exact .flat flat
  | chain hangs => exact .chain (.shadow link hangs)
  | reporter carries data => exact .reporter (.shadow link carries) data

/-- An argument of a call comes from where the input does. -/
theorem Origin.callArgument {p : Place} {input : Input} (h : t.Origin chains p input) :
    t.Origin chains p (callArgument input) := by
  rcases isFlat_or_callArgument_eq input with hflat | heq
  · exact .flat hflat
  · rw [heq]
    exact h

/-- A shadow to be taken over is linked to the owner of the slot. -/
theorem Adopted.slotLink {p : Place} {record child : BlockRecord} {slot id childOpcode : String}
    (h : t.Adopted id child childOpcode) (found : t.record? p.id = some record)
    (reads : t.ReadsSlots p) (mem : (slot, SlotValue.child id) ∈ record.slots) :
    t.SlotLink p (.shadow id) :=
  ⟨reads, record, slot, id, found, mem, (childPlace_of_inlined h.found h.inlined).symm⟩

/-- **What the slots of a place write comes from the place.** -/
theorem origin_of_writes {p : Place} {record : BlockRecord} {owner opcode : String}
    {entry : String × SlotValue} {w : String × Input}
    (hwrites : t.Writes chains owner opcode entry w) (howner : p.id = owner)
    (found : t.record? p.id = some record) (op : record.opcode? = some opcode)
    (reads : t.ReadsSlots p) (mem : entry ∈ record.slots) :
    t.Origin chains p w.2 := by
  induction hwrites generalizing p record with
  | literal stored =>
    subst howner
    rcases isFlat_or_isDataReporter_of_literalInput? stored with hflat | hdata
    · exact .flat hflat
    · exact .reporter (.slot found reads mem stored) hdata
  | chain named notInlined => exact .chain (.slot found op reads mem named notInlined)
  | slot adopted notMenu mem' _ ih =>
    have hreads := readsSlots_shadow adopted.found adopted.op adopted.notPrototype
    exact (ih (p := .shadow _) rfl adopted.found adopted.op hreads mem').shadow
      (adopted.slotLink found reads mem)
  | field adopted notMenu mem' => exact .flat (BlockRecord.isFlat_of_mem_fieldInputs mem')
  | parameter adopted stored =>
    have hflat := BlockRecord.isFlat_of_mem_fieldInputs (Entries.mem_of_find? stored)
    exact .flat hflat

/-- **Where the slots of a place can be filled, the chains that hang from it
can be grown.** -/
theorem Hangs.grows {p : Place} {statements : Bool} {head : String}
    (h : t.Hangs p statements head) {grows : String → Prop} {room : Nat} {trail : List String}
    {owner opcode : String} {record : BlockRecord} (found : t.record? p.id = some record)
    (hfeasible : ∀ s ∈ t.steps room trail owner opcode record, s.Feasible grows) :
    grows head := by
  induction h generalizing room trail owner opcode record with
  | slot found' _ _ mem named notInlined =>
    cases found.symm.trans found'
    rw [steps_eq_flatMap, List.forall_mem_flatMap] at hfeasible
    obtain ⟨child, hchild, hslot⟩ := feasible_slotSteps_child_iff.mp (hfeasible _ mem)
    cases named.symm.trans hchild
    rwa [if_neg notInlined] at hslot
  | shadow link hangs ih =>
    obtain ⟨_, slot, found', mem⟩ := link.2.exists_mem
    cases found.symm.trans found'
    obtain ⟨child, hchild, hi⟩ := link.2.shadow
    rw [steps_eq_flatMap, List.forall_mem_flatMap] at hfeasible
    obtain ⟨child', hchild', hslot⟩ := feasible_slotSteps_child_iff.mp (hfeasible _ mem)
    cases hchild.symm.trans hchild'
    rw [if_pos hi] at hslot
    obtain ⟨childOpcode, ho, hslot⟩ := hslot
    have hp : childOpcode ≠ Opcode.prototype := fun hp => hangs.readsSlots child hchild (hp ▸ ho)
    rw [if_neg hp] at hslot
    obtain ⟨_, _, _, hrest⟩ := feasible_inlined_iff.mp hslot
    exact ih hchild hrest

/-- What the slots of a place put under a key hangs from it. -/
theorem Puts.hangs {p : Place} {key : String} {statements : Bool} {head : String}
    (h : t.Puts p key statements head) : t.Hangs p statements head := by
  induction h with
  | slot found op reads split named notInlined _ =>
    have hmem := List.mem_iff_append.mpr ⟨_, _, split⟩
    exact .slot found op reads hmem named notInlined
  | shadow found reads split adopted _ _ _ _ ih =>
    have hmem := List.mem_iff_append.mpr ⟨_, _, split⟩
    exact .shadow (adopted.slotLink found reads hmem) ih

end BlockTable

/-! ## Grown blocks -/

/-- The ids of the arguments that a record lists. -/
def BlockRecord.argumentIds (r : BlockRecord) : List String :=
  (r.mutation?.map Mutation.argumentIds).getD []

/-- **A block holds an input under a key**: in the slot of that name, or for a
call as the argument of that id, if the id is listed. -/
def Block.Keeps (b : Block) (ids : List String) (key : String) (input : Input) : Prop :=
  if b.opcode = Opcode.call then
    ∃ values, b.inputs = [("INPUTS", .arguments values)]
      ∧ ∀ i, ids.idxOf? key = some i → values[i]? = some input
  else b.input? key = some input

/-- **All inputs of a block have a property**, for a call all its
arguments. -/
def Block.All (b : Block) (P : Input → Prop) : Prop :=
  if b.opcode = Opcode.call then
    ∃ values, b.inputs = [("INPUTS", .arguments values)] ∧ ∀ v ∈ values, P v
  else ∀ slot input, (slot, input) ∈ b.inputs → P input

/-- **A block is the tree of its record**, and so is every block below it. -/
inductive BlockTable.Grown (t : BlockTable) : Block → Prop where
  | intro {b : Block} {record : BlockRecord} {chains : String → List Block}
      /- The block is that of the record of its id. -/
      (found : t.record? b.id = some record) (op : record.opcode? = some b.opcode)
      /- The chains that hang from the block are grown whole. -/
      (chained : ∀ statements head, t.Hangs (.block b.id) statements head →
        t.Chained [] head ((chains head).map Block.id))
      (grown : ∀ statements head, t.Hangs (.block b.id) statements head →
        ∀ x ∈ chains head, Grown t x)
      /- A key that the slots put a chain under, and no field, holds it. -/
      (kept : ∀ key statements head, t.Puts (.block b.id) key statements head →
        (∀ f ∈ record.fieldInputs b.opcode, f.1 ≠ key) →
        t.Hangs (.block b.id) statements head
          ∧ b.Keeps record.argumentIds key (.ofChain statements (chains head)))
      /- Nothing else is in the slots but what holds no block, and reporters. -/
      (origin : b.All (t.Origin chains (.block b.id))) : Grown t b

namespace BlockTable

variable {t : BlockTable}

/-- **A block that is made of its filled slots keeps what is under a key** that
no field writes. -/
theorem keeps_block {f : Filling} {id opcode key : String} {record : BlockRecord} {input : Input}
    (hinput : SlotMap.find? key f.inputs = some input) (harg : callArgument input = input)
    (hfields : ∀ w ∈ record.fieldInputs opcode, w.1 ≠ key) :
    (f.block id opcode record).Keeps record.argumentIds key input := by
  have hall : SlotMap.find? key (SlotMap.insertAll f.inputs (record.fieldInputs opcode))
      = some input := by
    rw [SlotMap.find?_insertAll_of_ne hfields, hinput]
  unfold Filling.block Block.Keeps
  by_cases hcall : opcode = Opcode.call
  · simp only [hcall, if_true]
    subst hcall
    refine ⟨_, rfl, fun i hi => ?_⟩
    exact (getElem?_callArguments hi hall).trans (congrArg some harg)
  · simp only [hcall, if_false]
    exact hall

/-- **A block that is made of its filled slots has only inputs from there**,
and fields. -/
theorem all_block {chains : String → List Block} {f : Filling} {p : Place} {id opcode : String}
    {record : BlockRecord} (h : ∀ w ∈ f.inputs, t.Origin chains p w.2) :
    (f.block id opcode record).All (t.Origin chains p) := by
  have hall : ∀ w ∈ SlotMap.insertAll f.inputs (record.fieldInputs opcode),
      t.Origin chains p w.2 := by
    intro w hw
    rcases SlotMap.mem_insertAll hw with hw | hw
    · exact .flat (BlockRecord.isFlat_of_mem_fieldInputs hw)
    · exact h w hw
  unfold Filling.block Block.All
  by_cases hcall : opcode = Opcode.call
  · simp only [hcall, if_true]
    subst hcall
    refine ⟨_, rfl, fun v hv => ?_⟩
    rcases mem_callArguments hv with rfl | ⟨w, hw, rfl⟩
    · exact .flat trivial
    · exact (hall w hw).callArgument
  · simp only [hcall, if_false]
    exact fun slot input hmem => hall (slot, input) hmem

/-- The chains that are grown can be read off, as those that are not do not
matter. -/
theorem exists_chains (chainOf : String → Except ScriptError (List Block)) :
    ∃ chains : String → List Block, ∀ head blocks, chainOf head = .ok blocks →
      chains head = blocks := by
  refine ⟨fun head => (chainOf head).toOption.getD [], fun head blocks h => ?_⟩
  show (chainOf head).toOption.getD [] = blocks
  rw [h]
  rfl

section Filled

variable {room : Nat} {opened : List String} {id opcode : String} {record : BlockRecord}
  {f : Filling} {chains : String → List Block} (found : t.record? id = some record)
  (op : record.opcode? = some opcode)
  (hf : (t.steps t.length [] id opcode record).foldlM
    (Filling.take (t.chainWithin room (id :: opened))) {} = .ok f)
  (hchains : ∀ head blocks, t.chainWithin room (id :: opened) head = .ok blocks →
    chains head = blocks)

include found hf hchains

/-- A chain that hangs from a block whose slots are filled was expanded. -/
theorem chainWithin_of_hangs {statements : Bool} {head : String}
    (h : t.Hangs (.block id) statements head) :
    t.chainWithin room (id :: opened) head = .ok (chains head) := by
  have hfeasible := Filling.exists_foldlM_take_eq_ok_iff.mp ⟨f, hf⟩
  obtain ⟨blocks, hblocks⟩ := h.grows found hfeasible
  rw [hchains head blocks hblocks]
  exact hblocks

omit found in
/-- The slots that are filled are what the steps of the block write. -/
theorem inputs_eq_insertAll :
    f.inputs = SlotMap.insertAll []
      ((t.steps t.length [] id opcode record).filterMap (Step.write? chains)) :=
  Filling.inputs_of_foldlM_take (fun head blocks hblocks =>
    ⟨hchains head blocks hblocks, ne_nil_of_chainWithin hblocks⟩) hf

include op

/-- A chain that the slots put under a key is found there. -/
theorem find?_inputs_of_puts {key head : String} {statements : Bool}
    (h : t.Puts (.block id) key statements head) :
    SlotMap.find? key f.inputs = some (.ofChain statements (chains head)) := by
  have hfeasible := Filling.exists_foldlM_take_eq_ok_iff.mp ⟨f, hf⟩
  obtain ⟨pre, post, hwrites, hpost⟩ := exists_writes_of_puts h found op hfeasible
  rw [inputs_eq_insertAll hf hchains, hwrites, SlotMap.find?_insertAll_of_last hpost]

/-- What the slots are filled with comes from the block. -/
theorem origin_of_mem_inputs {w : String × Input} (h : w ∈ f.inputs) :
    t.Origin chains (.block id) w.2 := by
  rw [inputs_eq_insertAll hf hchains] at h
  rcases SlotMap.mem_insertAll h with h | h
  · obtain ⟨entry, hentry, hwrites⟩ := exists_writes_of_mem_steps h
    exact origin_of_writes (p := .block id) hwrites rfl found op trivial hentry
  · cases h

end Filled

/-- **What an expanded block is made of**: its record, the chains that can be grown
inside it, and the slots that are filled with them. -/
structure MadeOf (t : BlockTable) (room : Nat) (opened : List String) (b : Block)
    (record : BlockRecord) (f : Filling) (chains : String → List Block) : Prop where
  found : t.record? b.id = some record
  op : record.opcode? = some b.opcode
  filled : (t.steps t.length [] b.id b.opcode record).foldlM
    (Filling.take (t.chainWithin room (b.id :: opened))) {} = .ok f
  grows : ∀ head blocks, t.chainWithin room (b.id :: opened) head = .ok blocks →
    chains head = blocks
  hangs : ∀ statements head, t.Hangs (.block b.id) statements head →
    t.chainWithin room (b.id :: opened) head = .ok (chains head)
  made : f.block b.id b.opcode record = b

/-- An expanded block is made of something. -/
theorem exists_madeOf_of_expand {room : Nat} {opened : List String} {id : String} {b : Block}
    (h : t.expand (room + 1) opened id = .ok b) :
    ∃ record f chains, t.MadeOf room opened b record f chains := by
  obtain ⟨record, opcode, f, found, _, op, hf, hb⟩ := expand_succ_eq_ok_iff.mp h
  obtain ⟨chains, hchains⟩ := exists_chains (t.chainWithin room (id :: opened))
  -- the block that is built says its own id and opcode, so the names are its own from here
  have hid : id = b.id := by rw [← hb, Filling.id_block]
  have hopcode : opcode = b.opcode := by rw [← hb, Filling.opcode_block]
  subst hid hopcode
  exact ⟨record, f, chains, found, op, hf, hchains,
    fun _ _ hhead => chainWithin_of_hangs found hf hchains hhead, hb⟩

/-- **A block that is expanded is the tree of its record**, by induction on
the number that bounds the nesting: the chains that hang from it are expanded
with one less. -/
theorem grown_of_expand {room : Nat} {opened : List String} {id : String} {b : Block}
    (h : t.expand room opened id = .ok b) : t.Grown b := by
  induction room generalizing opened id b with
  | zero => exact absurd ⟨b, h⟩ not_expands_zero
  | succ room ih =>
    obtain ⟨record, f, chains, hb⟩ := exists_madeOf_of_expand h
    have hgrown : ∀ statements head, t.Hangs (.block b.id) statements head →
        ∀ x ∈ chains head, t.Grown x := by
      intro statements head hhead x hx
      obtain ⟨id, hexpand⟩ :=
        exists_expand_of_mem_chainWithin (hb.hangs statements head hhead) hx
      exact ih hexpand
    have hkept : ∀ key statements head, t.Puts (.block b.id) key statements head →
        (∀ w ∈ record.fieldInputs b.opcode, w.1 ≠ key) →
        t.Hangs (.block b.id) statements head
          ∧ (f.block b.id b.opcode record).Keeps record.argumentIds key
            (.ofChain statements (chains head)) := by
      intro key statements head hputs hfields
      have hkey := find?_inputs_of_puts hb.found hb.op hb.filled hb.grows hputs
      exact ⟨hputs.hangs, keeps_block hkey (callArgument_ofChain statements _) hfields⟩
    have hall : (f.block b.id b.opcode record).All (t.Origin chains (.block b.id)) :=
      all_block (fun w hw => origin_of_mem_inputs hb.found hb.op hb.filled hb.grows hw)
    rw [hb.made] at hkept hall
    exact .intro hb.found hb.op
      (fun statements head hhead => chained_of_chainWithin (hb.hangs statements head hhead))
      hgrown hkept hall

/-! ## Scripts -/

/-- **A script is the tree of a head**: it has the place of the record on the
screen, the blocks that the head leads to in order, and below each of them the
tree of its record. -/
def IsTreeOf (t : BlockTable) (e : String × BlockRecord) (s : Script) : Prop :=
  s.x = e.2.x ∧ s.y = e.2.y ∧ t.Chained [] e.1 (s.blocks.map Block.id) ∧ ∀ b ∈ s.blocks, t.Grown b

/-- A loop of two blocks: the first repeats two others as often as a shadow
says, and the second is a call with an argument. -/
def repeatAndCall : BlockTable :=
  [("a", { plainRecord "control_repeat" with
            next? := some "b", isTopLevel := true
            slots := [("TIMES", .child "n"), ("SUBSTACK", .child "c")] }),
   ("b", { plainRecord "procedures_call" with
            next? := some "a", slots := [("arg", .child "e")]
            mutation? := some ⟨some "jump %s", ["arg"], [], [], false⟩ }),
   ("c", { plainRecord "looks_show" with next? := some "d" }),
   ("d", plainRecord "looks_hide"),
   ("e", plainRecord "sensing_answer"),
   ("n", { plainRecord "math_whole_number" with isShadow := true })]

end BlockTable

end ScratchLegacy
