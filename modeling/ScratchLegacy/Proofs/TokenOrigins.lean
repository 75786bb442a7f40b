import ScratchLegacy.Proofs.ItemNumbers
import ScratchLegacy.Proofs.WrittenData

/-!
# Where operations come from

The legacy scripts of a target are full of operations, one in another. Most of
them are the tokens of blocks. What else there is are the calls that compute item
numbers, and two operations that help to count layers.

`Legacy.Stems` says so of one operation, for the blocks that a translation goes
through (`Legacy.passed`). Every operation in the statements of a stack stems from
the blocks of the stack (`Legacy.stems_statements`), and every operation in a
hidden procedure belongs to its scan or stems from the slots of the item number
(`Legacy.op_mem_indexScript`, `Legacy.stems_slotExpression`).

Which opcode a block has can then be read off its operation
(`Legacy.mem_vocabulary_of_emitBlock`).
-/

namespace ScratchLegacy.Legacy

/-! ## The operation of a block -/

/-- **Which operation an opcode is translated into**, wherever it is translated
at all. -/
def vocabulary : List (String × String) :=
  [("looks_gotofrontback", "comeToFront"), ("looks_gotofrontback", "goBackByLayers:"),
   ("looks_goforwardbackwardlayers", "goBackByLayers:"),
   ("looks_costumenumbername", "costumeIndex"), ("looks_costumenumbername", "costumeName"),
   ("looks_backdropnumbername", "backgroundIndex"), ("looks_backdropnumbername", "sceneName"),
   ("argument_reporter_string_number", "getParam"), ("argument_reporter_boolean", "getParam"),
   ("data_itemnumoflist", "readVariable"), ("procedures_definition", "procDef"),
   ("procedures_call", "call")]
    ++ forms.map (fun f => (f.opcode, f.operation))

/-- **A block is translated into an operation** of its opcode, or is undefined. -/
theorem exists_op_emitBlockOf (specOf : String → String) (b : Block)
    (readings : List (String × Reading)) :
    ∃ name arguments, (emitBlockOf specOf b readings).value = .op name arguments
      ∧ ((b.opcode, name) ∈ vocabulary ∨ name = "undefined") := by
  unfold emitBlockOf
  split <;> rename_i h
  case h_1 =>
    rw [h]
    split <;> exact ⟨_, _, rfl, by decide⟩
  case h_2 =>
    rw [h]
    simp only [Emitted.map]
    split <;> exact ⟨_, _, rfl, by decide⟩
  case h_3 | h_4 =>
    rw [h]
    split <;> exact ⟨_, _, rfl, by decide⟩
  case h_5 | h_6 | h_7 | h_9 =>
    rw [h]
    exact ⟨_, _, rfl, by decide⟩
  case h_8 =>
    rw [h]
    cases b.signature <;> exact ⟨_, _, rfl, by decide⟩
  case h_10 =>
    cases hform : form? b.opcode with
    | none => exact ⟨_, _, rfl, .inr rfl⟩
    | some form =>
      have hopcode : form.opcode = b.opcode := by simpa using List.find?_some hform
      refine ⟨_, _, rfl, .inl (List.mem_append_right _ ?_)⟩
      exact List.mem_map.mpr ⟨form, List.mem_of_find?_eq_some hform, by rw [hopcode]⟩

/-- The operation of a block is one of its opcode. -/
theorem mem_vocabulary_of_emitBlock {specOf : String → String} {b : Block} {name : String}
    {arguments : List Token} (h : .op name arguments = (emitBlock specOf b).value) :
    (b.opcode, name) ∈ vocabulary ∨ name = "undefined" := by
  rw [emitBlock_eq] at h
  obtain ⟨name', arguments', hvalue, hname⟩ := exists_op_emitBlockOf specOf b
    (b.inputs.map (fun e => (e.1, readInput specOf e.2)))
  cases h.trans hvalue
  exact hname

/-- Only a call is translated into a call. -/
theorem opcode_of_call : ∀ e ∈ vocabulary, e.2 = "call" → e.1 = Opcode.call := by
  decide +kernel

/-- **A call is written with the spec of its proccode.** -/
theorem exists_value_of_call (specOf : String → String) {c : Block} (h : c.opcode = Opcode.call) :
    ∃ values, (emitBlock specOf c).value
      = .op "call" (.text (specOf (c.proccode?.getD "")) :: values) := by
  rw [Opcode.call] at h
  rw [emitBlock_eq]
  simp only [emitBlockOf, h]
  exact ⟨_, rfl⟩

/-! ## Operations within a token -/

/-- **An operation that counts layers**: none, or the other way. -/
def CountsLayers (t : Token) : Prop := ∃ name arguments, t = .op name arguments ∧ name ∈ ["-", "/"]

section Parts

variable {name : String} {arguments : List Token}

/-- An operation in an operation is the whole, or in one of the arguments. -/
theorem Token.op_mem_op {name' : String} {arguments' : List Token} :
    .op name arguments ∈ (Token.op name' arguments').parts
      ↔ Token.op name arguments = .op name' arguments'
        ∨ ∃ t ∈ arguments', .op name arguments ∈ t.parts := by
  rw [parts, List.mem_cons, mem_partsAll]

/-- An operation in a list is in one of the items. -/
theorem Token.op_mem_list {ts : List Token} :
    .op name arguments ∈ (Token.list ts).parts ↔ ∃ t ∈ ts, .op name arguments ∈ t.parts := by
  simp [parts, mem_partsAll]

/-- An operation in a stack is in one of the statements. -/
theorem Token.op_mem_stack {ts : List Token} :
    .op name arguments ∈ (Token.stack ts).parts ↔ ∃ t ∈ ts, .op name arguments ∈ t.parts := by
  simp [parts, mem_partsAll]

/-- There is no operation in a literal. -/
theorem Token.op_not_mem_value (v : Json) : .op name arguments ∉ (Token.value v).parts := by
  simp [parts]

/-- An operation in an operation on literals is the whole. -/
theorem Token.eq_of_op_mem_values {name' : String} (vs : List Json)
    (h : .op name arguments ∈ (Token.op name' (vs.map .value)).parts) :
    Token.op name arguments = .op name' (vs.map .value) := by
  refine (Token.op_mem_op.mp h).resolve_right ?_
  simp [Token.op_not_mem_value]

/-- An operation in the layers taken backward is the negation of the layers, or
in them. -/
theorem op_mem_backward {t : Token} (h : .op name arguments ∈ (backward t).parts) :
    CountsLayers (.op name arguments) ∨ .op name arguments ∈ t.parts := by
  unfold backward at h
  split at h
  · exact absurd h (Token.op_not_mem_value _)
  · rcases Token.op_mem_op.mp h with heq | ⟨u, hu, h⟩
    · exact .inl ⟨name, arguments, rfl, by simp [(Token.op.inj heq).1]⟩
    · rcases List.mem_cons.mp hu with rfl | hu
      · exact absurd h (Token.op_not_mem_value _)
      · exact .inr (List.mem_singleton.mp hu ▸ h)

variable {specOf : String → String} {b : Block}

/-- An operation in the head of a procedure's script is the whole. -/
theorem op_mem_emitDefinition {signature : Option Signature}
    (h : .op name arguments ∈ (emitDefinition signature).parts) :
    .op name arguments = emitDefinition signature := by
  cases signature with
  | none => simpa [emitDefinition, Token.parts, Token.partsAll, Token.text, Token.bool] using h
  | some s =>
    obtain ⟨vs, hvs⟩ := exists_declared_eq s.parameters
    refine (Token.op_mem_op.mp h).resolve_right ?_
    simp [Token.op_mem_list, Token.op_not_mem_value, Token.text, Token.bool, hvs]

/-- An operation in a token that does not depend on the slots is the whole, or
counts layers. -/
theorem op_mem_of_reads_eq_nil (hreads : reads b.opcode = []) (notCall : b.opcode ≠ Opcode.call)
    {readings : List (String × Reading)} {t : Token}
    (ht : (emitBlockOf specOf b readings).value = t) (h : .op name arguments ∈ t.parts) :
    .op name arguments = t ∨ CountsLayers (.op name arguments) := by
  unfold emitBlockOf at ht
  split at ht <;> rename_i hopcode
  case h_1 =>
    split at ht <;> subst ht
    · exact .inl (Token.eq_of_op_mem_values [] h)
    · refine (Token.op_mem_op.mp h).imp_right (fun h => ?_)
      obtain ⟨u, hu, h⟩ := h
      cases List.mem_singleton.mp hu
      have heq := Token.eq_of_op_mem_values [_, _] h
      exact ⟨name, arguments, rfl, by simp [(Token.op.inj heq).1]⟩
  case h_3 | h_4 =>
    subst ht
    exact .inl (Token.eq_of_op_mem_values [] h)
  case h_5 | h_6 =>
    subst ht
    exact .inl (Token.eq_of_op_mem_values [_, _] h)
  case h_8 =>
    subst ht
    exact .inl (op_mem_emitDefinition h)
  case h_9 => exact absurd hopcode notCall
  case h_2 | h_7 =>
    rw [hopcode] at hreads
    cases hreads
  case h_10 =>
    have harguments : ((form? b.opcode).map Form.arguments).getD [] = [] := by
      unfold reads at hreads
      split at hreads <;> first | contradiction | exact hreads
    cases hform : form? b.opcode with
    | none =>
      rw [hform] at ht
      subst ht
      exact .inl (Token.eq_of_op_mem_values [_] h)
    | some form =>
      rw [hform] at ht harguments
      have hnil : form.arguments = [] := harguments
      simp only [hnil] at ht
      subst ht
      exact .inl (Token.eq_of_op_mem_values [] h)

/-- An operation in an argument is in what the argument leads to. -/
theorem exists_entered_of_op_mem {a : Argument} (notCall : b.opcode ≠ Opcode.call)
    (ha : a ∈ reads b.opcode)
    (h : .op name arguments ∈ (a.emit (slotReadings specOf b)).value.parts) :
    ∃ e ∈ entered b, .op name arguments ∈ ((readInput specOf e.2).as e.1).value.parts := by
  rw [entered, if_neg notCall]
  rcases emit_argument_cases specOf b a with ⟨e, he, heq⟩ | ⟨v, heq⟩
  · exact ⟨e, List.mem_flatMap.mpr ⟨a, ha, he⟩, heq ▸ h⟩
  · rw [heq] at h
    exact absurd h (Token.op_not_mem_value v)

/-- An operation in an argument of a call is in what the call leads to. -/
theorem exists_entered_of_op_mem_values (call : b.opcode = Opcode.call) {t : Token}
    (ht : t ∈ (Emitted.all
      ((slotReading (slotReadings specOf b) "INPUTS").arguments.getD [])).value)
    (h : .op name arguments ∈ t.parts) :
    ∃ e ∈ entered b, .op name arguments ∈ ((readInput specOf e.2).as e.1).value.parts := by
  rw [slotReadings, slotReading_map] at ht
  rw [entered, if_pos call, callEntered]
  cases hinput : b.input? "INPUTS" with
  | none =>
    rw [hinput] at ht
    cases ht
  | some input =>
    rw [hinput] at ht
    cases input with
    | arguments values =>
      exact ⟨(.expression, .arguments values), List.mem_cons_self,
        Token.op_mem_list.mpr ⟨t, ht, h⟩⟩
    | _ => cases ht

/-- **An operation in the token of a block** is the whole, counts layers, or is
in what the block leads to. -/
theorem op_mem_emitBlock (h : .op name arguments ∈ (emitBlock specOf b).value.parts) :
    .op name arguments = (emitBlock specOf b).value ∨ CountsLayers (.op name arguments)
      ∨ ∃ e ∈ entered b, .op name arguments ∈ ((readInput specOf e.2).as e.1).value.parts := by
  rw [emitBlock_eq, ← slotReadings] at h ⊢
  cases rule_of_block specOf b with
  | constant token notCall _ reads _ _ =>
    exact (op_mem_of_reads_eq_nil reads notCall rfl h).imp_right .inl
  | layers forward opcode emit =>
    rw [emit] at h ⊢
    refine (Token.op_mem_op.mp h).imp_right (fun h => ?_)
    obtain ⟨t, ht, h⟩ := h
    cases List.mem_singleton.mp ht
    have hslot : Argument.slot "NUM" ∈ reads b.opcode := by
      rw [opcode]
      exact List.mem_cons_self
    have hlayers : .op name arguments
        ∈ ((Argument.slot "NUM").emit (slotReadings specOf b)).value.parts → _ :=
      exists_entered_of_op_mem (by rw [opcode]; decide) hslot
    cases forward
    · exact .inr (hlayers h)
    · exact (op_mem_backward h).imp_right hlayers
  | itemNumber opcode emit =>
    rw [emit] at h ⊢
    exact .inl (Token.eq_of_op_mem_values [_] h)
  | call spec opcode emit =>
    rw [emit] at h ⊢
    refine (Token.op_mem_op.mp h).imp_right (fun h => .inr ?_)
    obtain ⟨t, ht, h⟩ := h
    rcases List.mem_cons.mp ht with rfl | ht
    · exact absurd h (Token.op_not_mem_value _)
    · exact exists_entered_of_op_mem_values opcode ht h
  | form form found notCall notItemNumber reads emit =>
    rw [emit] at h ⊢
    refine (Token.op_mem_op.mp h).imp_right (fun h => .inr ?_)
    obtain ⟨t, ht, h⟩ := h
    obtain ⟨e, he, rfl⟩ := List.mem_map.mp ht
    obtain ⟨a, ha, rfl⟩ := List.mem_map.mp he
    exact exists_entered_of_op_mem notCall (reads ▸ ha) h

end Parts

/-! ## The blocks that a translation goes through -/

/-- The translation of a block goes through the block. -/
theorem self_mem_passed (deep : Bool) (b : Block) : b ∈ passed deep b := by
  rw [passed_eq]
  exact List.mem_append_right _ List.mem_cons_self

/-- The translation of a block goes through what that of its slots goes
through. -/
theorem passedInput_subset_passed {deep : Bool} {b : Block} {e : Mode × Input}
    (he : e ∈ entered b) : passedInput deep e.1 e.2 ⊆ passed deep b := by
  intro c hc
  rw [passed_eq]
  exact List.mem_append_left _ (List.mem_flatMap.mpr ⟨e, he, hc⟩)

/-- **A translation goes through no block outside stacks alone.** -/
theorem hereditary_passed_subset :
    Block.Hereditary (fun b => passed false b ⊆ passed true b)
      (fun input => ∀ mode, passedInput false mode input ⊆ passedInput true mode input) where
  owner b ih c hc := by
    rw [passed_eq, List.mem_append, List.mem_flatMap] at hc ⊢
    refine hc.imp_left (fun ⟨e, he, hc⟩ => ?_)
    obtain ⟨slot, hmem⟩ := exists_slot_of_mem_entered he
    exact ⟨e, he, ih (slot, e.2) hmem e.1 hc⟩
  flat input hflat mode := by
    rw [passedInput_of_isFlat hflat]
    exact List.nil_subset _
  block b ih mode := by
    cases mode with
    | expression =>
      rw [passedInput, passedInput]
      exact ih
    | body =>
      rw [passedInput]
      exact List.nil_subset _
  stack blocks _ mode := by
    rw [passedInput]
    exact List.nil_subset _
  arguments values ih mode c hc := by
    rw [passedInput, List.mem_flatMap] at hc ⊢
    obtain ⟨v, hv, hc⟩ := hc
    exact ⟨v, hv, ih v hv .expression hc⟩

/-- **A translation goes only through blocks within the block.** -/
theorem hereditary_within_of_passed (c : Block) :
    Block.Hereditary (fun b => c ∈ passed true b → c.Within b)
      (fun input => ∀ mode, c ∈ passedInput true mode input →
        ∃ child, input.Holds child ∧ c.Within child) where
  owner b ih hc := by
    rw [passed_eq, List.mem_append, List.mem_flatMap] at hc
    rcases hc with ⟨e, he, hc⟩ | hc
    · obtain ⟨slot, hmem⟩ := exists_slot_of_mem_entered he
      obtain ⟨child, hholds, hwithin⟩ := ih (slot, e.2) hmem e.1 hc
      exact .slot hmem hholds hwithin
    · cases List.mem_singleton.mp hc
      exact .self
  flat input hflat mode hc := by
    rw [passedInput_of_isFlat hflat] at hc
    cases hc
  block b ih mode hc := by
    have hb : c ∈ passed true b := by
      cases mode <;> (rw [passedInput] at hc; exact hc)
    exact ⟨b, .block b, ih hb⟩
  stack blocks ih mode hc := by
    rw [passedInput, if_pos rfl, List.mem_flatMap] at hc
    obtain ⟨b, hb, hc⟩ := hc
    exact ⟨b, .stack hb, ih b hb hc⟩
  arguments values ih mode hc := by
    rw [passedInput, List.mem_flatMap] at hc
    obtain ⟨v, hv, hc⟩ := hc
    obtain ⟨child, hholds, hwithin⟩ := ih v hv .expression hc
    exact ⟨child, .arguments hv hholds, hwithin⟩

/-- **What the translation of a block goes through, so does that of every block
that goes through it.** -/
theorem hereditary_passed_trans (c : Block) :
    Block.Hereditary (fun b => c ∈ passed true b → passed true c ⊆ passed true b)
      (fun input => ∀ mode, c ∈ passedInput true mode input →
        passed true c ⊆ passedInput true mode input) where
  owner b ih hc := by
    rw [passed_eq true b, List.mem_append, List.mem_flatMap] at hc
    rcases hc with ⟨e, he, hc⟩ | hc
    · obtain ⟨slot, hmem⟩ := exists_slot_of_mem_entered he
      exact List.Subset.trans (ih (slot, e.2) hmem e.1 hc) (passedInput_subset_passed he)
    · cases List.mem_singleton.mp hc
      exact List.Subset.refl _
  flat input hflat mode hc := by
    rw [passedInput_of_isFlat hflat] at hc
    cases hc
  block b ih mode hc := by
    cases mode <;> (rw [passedInput] at hc ⊢; exact ih hc)
  stack blocks ih mode hc := by
    rw [passedInput, if_pos rfl] at hc ⊢
    obtain ⟨b, hb, hc⟩ := List.mem_flatMap.mp hc
    exact fun d hd => List.mem_flatMap.mpr ⟨b, hb, ih b hb hc hd⟩
  arguments values ih mode hc := by
    rw [passedInput] at hc ⊢
    obtain ⟨v, hv, hc⟩ := List.mem_flatMap.mp hc
    exact fun d hd => List.mem_flatMap.mpr ⟨v, hv, ih v hv .expression hc hd⟩

/-! ## Where operations come from -/

/-- **Where an operation can come from** when blocks are translated: it is the
token of one of them, the call for an item number among them, or counts
layers. -/
inductive Stems (specOf : String → String) (bs : List Block) : Token → Prop where
  | block {c : Block} (mem : c ∈ bs) : Stems specOf bs (emitBlock specOf c).value
  | call {r : Block} (mem : r ∈ bs) (item : r.opcode = Opcode.itemNumber) :
      Stems specOf bs (indexCall r.id)
  | layers {t : Token} (counts : CountsLayers t) : Stems specOf bs t

section Stems

variable {specOf : String → String} {name : String} {arguments : List Token}

/-- What comes from some blocks comes from more of them. -/
theorem Stems.mono {bs bs' : List Block} {t : Token} (h : Stems specOf bs t) (hbs : bs ⊆ bs') :
    Stems specOf bs' t := by
  cases h with
  | block mem => exact .block (hbs mem)
  | call mem item => exact .call (hbs mem) item
  | layers counts => exact .layers counts

/-- **An operation that is no call and counts no layers is the token of a
block.** -/
theorem Stems.exists_block {bs : List Block} (h : Stems specOf bs (.op name arguments))
    (hname : name ∉ ["call", "-", "/"]) :
    ∃ c ∈ bs, .op name arguments = (emitBlock specOf c).value
      ∧ ((c.opcode, name) ∈ vocabulary ∨ name = "undefined") := by
  generalize ht : Token.op name arguments = t at h
  cases h with
  | block mem => exact ⟨_, mem, rfl, mem_vocabulary_of_emitBlock ht⟩
  | call mem item =>
    cases ht
    exact absurd List.mem_cons_self hname
  | layers counts =>
    obtain ⟨_, _, rfl, hcounts⟩ := counts
    cases ht
    exact absurd (List.mem_cons_of_mem _ hcounts) hname

/-- An operation in the call for an item number is the call. -/
theorem op_mem_indexCall {id : String} (h : .op name arguments ∈ (indexCall id).parts) :
    .op name arguments = indexCall id :=
  Token.eq_of_op_mem_values [_] h

/-- **An operation in a stack of statements comes from its blocks** when those
in their tokens do. -/
theorem stems_of_mem_statements {blocks : List Block}
    (hblocks : ∀ b ∈ blocks, .op name arguments ∈ (emitBlock specOf b).value.parts →
      Stems specOf (passed true b) (.op name arguments))
    {t : Token} (ht : t ∈ statements specOf blocks) (h : .op name arguments ∈ t.parts) :
    Stems specOf (blocks.flatMap (passed true)) (.op name arguments) := by
  obtain ⟨b, hb, ht⟩ := List.mem_flatMap.mp ht
  have hsubset : passed true b ⊆ blocks.flatMap (passed true) :=
    fun c hc => List.mem_flatMap.mpr ⟨b, hb, hc⟩
  rcases List.mem_append.mp ht with ht | ht
  · obtain ⟨r, hr, rfl⟩ := List.mem_map.mp ht
    obtain ⟨hr, hitem⟩ := List.mem_filter.mp hr
    rw [op_mem_indexCall h]
    exact .call (hsubset (hereditary_passed_subset.forall_block b hr)) (of_decide_eq_true hitem)
  · cases List.mem_singleton.mp ht
    exact (hblocks b hb h).mono hsubset

/-- **An operation in a token comes from the blocks that its translation goes
through.** -/
theorem hereditary_stems (specOf : String → String) (name : String) (arguments : List Token) :
    Block.Hereditary
      (fun b => .op name arguments ∈ (emitBlock specOf b).value.parts →
        Stems specOf (passed true b) (.op name arguments))
      (fun input => ∀ mode, .op name arguments ∈ ((readInput specOf input).as mode).value.parts →
        Stems specOf (passedInput true mode input) (.op name arguments)) where
  owner b ih h := by
    rcases op_mem_emitBlock h with heq | hlayers | ⟨e, he, h⟩
    · rw [heq]
      exact .block (self_mem_passed true b)
    · exact .layers hlayers
    · obtain ⟨slot, hmem⟩ := exists_slot_of_mem_entered he
      exact (ih (slot, e.2) hmem e.1 h).mono (passedInput_subset_passed he)
  flat input hflat mode h := by
    cases input with
    | block _ | stack _ | arguments _ => exact hflat.elim
    | _ => cases mode <;> exact absurd h (Token.op_not_mem_value _)
  block b ih mode h := by
    cases mode with
    | expression =>
      rw [passedInput]
      exact ih h
    | body =>
      -- a block in the place of a stack is a stack of one
      change _ ∈ (Token.stack (Emitted.stack (emitAll specOf [b])).value).parts at h
      rw [stack_emitAll, Token.op_mem_stack] at h
      obtain ⟨t, ht, h⟩ := h
      have hstems := stems_of_mem_statements (List.forall_mem_singleton.mpr ih) ht h
      rw [List.flatMap_singleton] at hstems
      rwa [passedInput, if_pos rfl]
  stack blocks ih mode h := by
    rw [as_stack, stack_emitAll, Emitted.map, Token.op_mem_stack] at h
    obtain ⟨t, ht, h⟩ := h
    rw [passedInput, if_pos rfl]
    exact stems_of_mem_statements ih ht h
  arguments values ih mode h := by
    rw [as_arguments, Emitted.map, Token.op_mem_list, Emitted.all, expressions_eq_map, List.map_map] at h
    obtain ⟨t, ht, h⟩ := h
    obtain ⟨v, hv, rfl⟩ := List.mem_map.mp ht
    refine (ih v hv .expression h).mono (fun c hc => ?_)
    rw [passedInput]
    exact List.mem_flatMap.mpr ⟨v, hv, hc⟩

/-- **The statements of a stack come from its blocks.** -/
theorem stems_statements {blocks : List Block}
    (h : .op name arguments ∈ Token.partsAll (statements specOf blocks)) :
    Stems specOf (blocks.flatMap (passed true)) (.op name arguments) := by
  obtain ⟨t, ht, h⟩ := Token.mem_partsAll.mp h
  exact stems_of_mem_statements
    (fun b _ => (hereditary_stems specOf name arguments).forall_block b) ht h

/-- **The slots of an item number come from the blocks that its translation goes
through.** -/
theorem stems_slotExpression {r : Block} (hr : r.opcode = Opcode.itemNumber) {slot : String}
    (hslot : slot = "LIST" ∨ slot = "ITEM")
    (h : .op name arguments ∈ (slotExpression specOf r slot).parts) :
    Stems specOf (passed true r) (.op name arguments) := by
  have hreads : Argument.slot slot ∈ reads r.opcode := by
    rw [hr]
    rcases hslot with rfl | rfl <;> decide
  obtain ⟨e, he, h⟩ := exists_entered_of_op_mem (by rw [hr]; decide) hreads h
  have hstems := (hereditary_stems specOf name arguments).forall_input e.2 e.1 h
  exact hstems.mono (passedInput_subset_passed he)

/-- The operations of a scan, besides those of the list and the item. -/
def scanning : List String :=
  ["procDef", "setVar:to:", "doUntil", "|", "=", "getLine:ofList:", "readVariable", ">",
   "lineCountOfList:", "changeVar:by:"]

/-- **An operation in the hidden procedure of an item number** is one of its
scan, or is in the list or the item. -/
theorem op_mem_indexScript {r : Block}
    (h : .op name arguments ∈ Token.partsAll (indexScript specOf r).statements) :
    name ∈ scanning ∨ .op name arguments ∈ (slotExpression specOf r "LIST").parts
      ∨ .op name arguments ∈ (slotExpression specOf r "ITEM").parts := by
  by_cases hscan : name ∈ scanning
  · exact .inl hscan
  · refine .inr ?_
    simp only [scanning, List.mem_cons, List.not_mem_nil, or_false, not_or] at hscan
    simp only [indexScript, indexProcedure, Token.partsAll, Token.parts, Token.text, Token.nat,
      Token.bool, List.mem_append, List.mem_cons, List.not_mem_nil, or_false, false_or,
      reduceCtorEq, Token.op.injEq, hscan, false_and] at h
    rcases h with (h | h) | h
    · exact .inl h
    · exact .inr h
    · exact .inl h

end Stems

/-! ## The scripts of a target -/

/-- The translation of a script, without the procedures that it needs. -/
def mainScript (specOf : String → String) (s : ScratchLegacy.Script) : Script :=
  ⟨s.x, s.y, (Emitted.stack (emitAll specOf s.blocks)).value⟩

/-- A script is translated into the statements of its blocks. -/
theorem statements_mainScript (specOf : String → String) (s : ScratchLegacy.Script) :
    (mainScript specOf s).statements = statements specOf s.blocks := by
  show (Emitted.stack (emitAll specOf s.blocks)).value = _
  rw [stack_emitAll]

/-- **The blocks that the translation of a target goes through.** -/
def passedIn (target : Target) : List Block :=
  target.scripts.flatMap (fun s => s.blocks.flatMap (passed true))

/-- **The item numbers that the translation of a target goes through.** -/
def itemNumbersIn (target : Target) : List Block :=
  (passedIn target).filter (fun r => r.opcode = Opcode.itemNumber)

section Target

variable {target : Target}

/-- A script is translated into its statements and the hidden procedures of its
item numbers. -/
theorem emitScript_eq_cons (specOf : String → String) (s : ScratchLegacy.Script) :
    emitScript specOf s
      = mainScript specOf s :: (s.blocks.flatMap (itemNumbers true)).map (indexScript specOf) := by
  rw [emitScript, mainScript, stack_emitAll]

/-- The item numbers of a target are those of its blocks. -/
theorem mem_itemNumbersIn {r : Block} :
    r ∈ itemNumbersIn target
      ↔ ∃ s ∈ target.scripts, r ∈ s.blocks.flatMap (itemNumbers true) := by
  simp only [itemNumbersIn, passedIn, itemNumbers, List.mem_filter, List.mem_flatMap]
  constructor
  · rintro ⟨⟨s, hs, b, hb, hr⟩, hitem⟩
    exact ⟨s, hs, b, hb, hr, hitem⟩
  · rintro ⟨s, hs, b, hb, hr, hitem⟩
    exact ⟨⟨s, hs, b, hb, hr⟩, hitem⟩

/-- **A legacy script is that of a script or of an item number.** -/
theorem mem_emitScripts {script : Script} :
    script ∈ emitScripts target
      ↔ (∃ s ∈ target.scripts, script = mainScript (specOf target) s)
        ∨ ∃ r ∈ itemNumbersIn target, script = indexScript (specOf target) r := by
  simp only [emitScripts, List.mem_flatMap, emitScript_eq_cons, List.mem_cons, List.mem_map,
    mem_itemNumbersIn]
  constructor
  · rintro ⟨s, hs, rfl | ⟨r, hr, rfl⟩⟩
    · exact .inl ⟨s, hs, rfl⟩
    · exact .inr ⟨r, ⟨s, hs, hr⟩, rfl⟩
  · rintro (⟨s, hs, rfl⟩ | ⟨r, ⟨s, hs, hr⟩, rfl⟩)
    · exact ⟨s, hs, .inl rfl⟩
    · exact ⟨s, hs, .inr ⟨r, hr, rfl⟩⟩

/-- What a translation goes through is a block of the target. -/
theorem mem_blocks_of_mem_passedIn {c : Block} (h : c ∈ passedIn target) : c ∈ target.blocks := by
  obtain ⟨s, hs, h⟩ := List.mem_flatMap.mp h
  obtain ⟨b, hb, h⟩ := List.mem_flatMap.mp h
  have hwithin := (hereditary_within_of_passed c).forall_block b h
  exact List.mem_flatMap.mpr ⟨s, hs, List.mem_flatMap.mpr ⟨b, hb, Block.mem_visit_iff.mpr hwithin⟩⟩

/-- The translation of a target goes through what that of its blocks goes through. -/
theorem passed_subset_passedIn {r : Block} (hr : r ∈ passedIn target) :
    passed true r ⊆ passedIn target := by
  obtain ⟨s, hs, hr⟩ := List.mem_flatMap.mp hr
  obtain ⟨b, hb, hr⟩ := List.mem_flatMap.mp hr
  intro c hc
  have hc := (hereditary_passed_trans r).forall_block b hr hc
  exact List.mem_flatMap.mpr ⟨s, hs, List.mem_flatMap.mpr ⟨b, hb, hc⟩⟩

/-- **An operation in the legacy scripts of a target** comes from its blocks, or is
one of a scan. -/
theorem stems_emitScripts {script : Script} {name : String} {arguments : List Token}
    (hscript : script ∈ emitScripts target)
    (h : .op name arguments ∈ Token.partsAll script.statements) :
    name ∈ scanning ∨ Stems (specOf target) (passedIn target) (.op name arguments) := by
  rcases mem_emitScripts.mp hscript with ⟨s, hs, rfl⟩ | ⟨r, hr, rfl⟩
  · rw [statements_mainScript] at h
    refine .inr ((stems_statements h).mono (fun c hc => ?_))
    exact List.mem_flatMap.mpr ⟨s, hs, hc⟩
  · obtain ⟨hr, hitem⟩ := List.mem_filter.mp hr
    have hitem := of_decide_eq_true hitem
    refine (op_mem_indexScript h).imp_right (fun h => ?_)
    rcases h with h | h
    · exact (stems_slotExpression hitem (.inl rfl) h).mono (passed_subset_passedIn hr)
    · exact (stems_slotExpression hitem (.inr rfl) h).mono (passed_subset_passedIn hr)

end Target

end ScratchLegacy.Legacy
