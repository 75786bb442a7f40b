import ScratchLegacy.Proofs.EmissionRules

/-!
# Item numbers are computed before they are read

The position of an item in a list has no reporter in the legacy format. It is
the reading of an index variable, which a call in front of the statement
computes. For this to be right, each such reporter needs one call, in front of
the statement that reads the variable, and behind the calls for the reporters
in its own slots.

`Legacy.passed` lists the blocks that the translation of a block goes through,
each behind those in its slots. It stops at stacks, which have statements of
their own to put calls in front of, or goes on through them. The item numbers
of the first list are those whose calls come before the block
(`Legacy.before_emitBlock`), those of the second list have the hidden
procedures (`Legacy.helpers_emitBlock`).

`Legacy.Strips` says that a token is another one without index calls. What is
left of every translation is the plain one (`Legacy.strips_hereditary`), in
which an item number is just the reading of its variable.
-/

namespace ScratchLegacy.Legacy

/-! ## The blocks that a translation goes through -/

/-- What fills a slot is smaller than the block. -/
theorem sizeOf_lt_of_mem_inputs {b : Block} {e : String × Input} (h : e ∈ b.inputs) :
    sizeOf e.2 < sizeOf b := by
  obtain ⟨id, opcode, inputs, signature⟩ := b
  obtain ⟨slot, input⟩ := e
  have := List.sizeOf_lt_of_mem h
  simp only [Prod.mk.sizeOf_spec, Block.mk.sizeOf_spec] at this ⊢
  omega

/-- What a block leads to is smaller than the block. -/
theorem sizeOf_lt_of_mem_entered {b : Block} {e : Mode × Input} (h : e ∈ entered b) :
    sizeOf e.2 < sizeOf b := by
  obtain ⟨slot, hmem⟩ := exists_slot_of_mem_entered h
  exact sizeOf_lt_of_mem_inputs hmem

mutual

/-- **The blocks that the translation of a block goes through**, each behind
those in its slots, with or without the blocks of the stacks in them. -/
def passed (deep : Bool) (b : Block) : List Block :=
  (entered b).attach.flatMap (fun e => passedInput deep e.1.1 e.1.2) ++ [b]
termination_by sizeOf b
decreasing_by exact sizeOf_lt_of_mem_entered e.2

/-- The blocks that the translation of an input goes through. -/
def passedInput (deep : Bool) : Mode → Input → List Block
  | .expression, .block b => passed deep b
  | .body, .block b => if deep then passed deep b else []
  | _, .stack blocks => if deep then blocks.flatMap (passed deep) else []
  | _, .arguments values => values.flatMap (passedInput deep .expression)
  | _, _ => []
termination_by _ input => sizeOf input

end

/-- **The item numbers that a translation goes through.** -/
def itemNumbers (deep : Bool) (b : Block) : List Block :=
  (passed deep b).filter (fun r => r.opcode = Opcode.itemNumber)

/-- A block comes behind what is in its slots. -/
theorem passed_eq (deep : Bool) (b : Block) :
    passed deep b = (entered b).flatMap (fun e => passedInput deep e.1 e.2) ++ [b] := by
  rw [passed, List.flatMap_subtype]
  · rw [List.unattach_attach]
  · exact fun _ _ => rfl

/-- A flat input leads to no block. -/
theorem passedInput_of_isFlat {deep : Bool} {mode : Mode} {input : Input} (h : input.IsFlat) :
    passedInput deep mode input = [] := by
  cases input with
  | block _ | stack _ | arguments _ => exact h.elim
  | _ => simp only [passedInput]

/-! ## What is collected is that of the item numbers -/

section Collected

variable (specOf : String → String) {α : Type} (c : Collection α)

/-- What an item number adds to a collection. -/
def Collection.ofItemNumber (r : Block) : List α :=
  c.own r.id (slotExpression specOf r "LIST") (slotExpression specOf r "ITEM")

/-- What the blocks of a list add to a collection: their item numbers do. -/
def Collection.ofBlocks (bs : List Block) : List α :=
  (bs.filter (fun r => r.opcode = Opcode.itemNumber)).flatMap (c.ofItemNumber specOf)

/-- A block adds to a collection when it is an item number. -/
theorem Collection.ofBlocks_singleton (b : Block) :
    c.ofBlocks specOf [b]
      = if b.opcode = Opcode.itemNumber then c.ofItemNumber specOf b else [] := by
  unfold ofBlocks
  by_cases hitem : b.opcode = Opcode.itemNumber
  · rw [if_pos hitem, List.filter_cons_of_pos (by simpa using hitem)]
    exact List.append_nil _
  · rw [if_neg hitem, List.filter_cons_of_neg (by simpa using hitem)]
    rfl

/-- Blocks add to a collection one after the other. -/
theorem Collection.ofBlocks_append (bs bs' : List Block) :
    c.ofBlocks specOf (bs ++ bs') = c.ofBlocks specOf bs ++ c.ofBlocks specOf bs' := by
  unfold ofBlocks
  rw [List.filter_append, List.flatMap_append]

/-- Lists of blocks add to a collection one after the other. -/
theorem Collection.ofBlocks_flatMap {β : Type} (xs : List β) (f : β → List Block) :
    c.ofBlocks specOf (xs.flatMap f) = xs.flatMap (fun x => c.ofBlocks specOf (f x)) := by
  induction xs with
  | nil => rfl
  | cons x rest ih => rw [List.flatMap_cons, c.ofBlocks_append specOf, ih, List.flatMap_cons]

/-- **A translation collects what the item numbers that it goes through
add.** -/
theorem part_hereditary :
    Block.Hereditary (fun b => c.part (emitBlock specOf b) = c.ofBlocks specOf (passed c.deep b))
      (fun input => ∀ mode, c.part ((readInput specOf input).as mode)
        = c.ofBlocks specOf (passedInput c.deep mode input)) where
  owner b ih := by
    have hentered : (entered b).flatMap (fun e => c.part ((readInput specOf e.2).as e.1))
        = (entered b).flatMap (fun e => c.ofBlocks specOf (passedInput c.deep e.1 e.2)) := by
      refine List.flatMap_congr (fun e he => ?_)
      obtain ⟨slot, hmem⟩ := exists_slot_of_mem_entered he
      exact ih (slot, e.2) hmem e.1
    rw [part_emitBlock, hentered, passed_eq, c.ofBlocks_append, c.ofBlocks_flatMap,
      c.ofBlocks_singleton]
    rfl
  flat input hflat mode := by
    rw [passedInput_of_isFlat hflat]
    cases input with
    | block _ | stack _ | arguments _ => exact hflat.elim
    | _ => cases mode <;> exact c.part_mk _
  block b ih mode := by
    cases mode with
    | expression =>
      rw [passedInput, ← ih]
      rfl
    | body =>
      show c.part ((Emitted.stack [emitBlock specOf b]).map Token.stack) = _
      rw [passedInput, c.part_map, c.part_stack]
      split
      · rw [← ih]
        exact List.append_nil _
      · rfl
  stack blocks ih mode := by
    rw [as_stack, passedInput, c.part_map, c.part_stack, emitAll_eq_map, List.flatMap_map]
    split
    · rw [c.ofBlocks_flatMap]
      exact List.flatMap_congr ih
    · rfl
  arguments values ih mode := by
    rw [as_arguments, passedInput, c.part_map, c.part_all, expressions_eq_map, List.flatMap_map,
      c.ofBlocks_flatMap]
    exact List.flatMap_congr (fun v hv => ih v hv .expression)

end Collected

/-- The hidden procedure of an item number. -/
def indexScript (specOf : String → String) (r : Block) : Script :=
  indexProcedure r.id (slotExpression specOf r "LIST") (slotExpression specOf r "ITEM")

/-- The calls of the hidden procedures of item numbers. -/
def indexCalls (rs : List Block) : List Token := rs.map (fun r => indexCall r.id)

/-- **The calls that come before a block** are those of the item numbers that
its translation goes through, except for those in stacks. -/
theorem before_emitBlock (specOf : String → String) (b : Block) :
    (emitBlock specOf b).before = indexCalls (itemNumbers false b) := by
  have hpart := (part_hereditary specOf Collection.calls).forall_block b
  exact hpart.trans List.map_eq_flatMap.symm

/-- **The procedures that a block adds** are those of the item numbers that its
translation goes through, wherever they are. -/
theorem helpers_emitBlock (specOf : String → String) (b : Block) :
    (emitBlock specOf b).helpers = (itemNumbers true b).map (indexScript specOf) := by
  have hpart := (part_hereditary specOf Collection.procedures).forall_block b
  exact hpart.trans List.map_eq_flatMap.symm

/-- **The statements of a stack**: each block has the calls of its item numbers
right in front of it. -/
def statements (specOf : String → String) (blocks : List Block) : List Token :=
  blocks.flatMap (fun b => indexCalls (itemNumbers false b) ++ [(emitBlock specOf b).value])

/-- **A stack of statements keeps its calls to itself**, and adds the
procedures of all its item numbers. -/
theorem stack_emitAll (specOf : String → String) (blocks : List Block) :
    Emitted.stack (emitAll specOf blocks)
      = ⟨statements specOf blocks, [],
          (blocks.flatMap (itemNumbers true)).map (indexScript specOf)⟩ := by
  have hvalue : (emitAll specOf blocks).flatMap (fun e => e.before ++ [e.value])
      = statements specOf blocks := by
    rw [emitAll_eq_map, List.flatMap_map]
    exact List.flatMap_congr (fun b _ => by rw [before_emitBlock])
  have hhelpers : (emitAll specOf blocks).flatMap Emitted.helpers
      = (blocks.flatMap (itemNumbers true)).map (indexScript specOf) := by
    rw [emitAll_eq_map, List.flatMap_map, List.map_flatMap]
    exact List.flatMap_congr (fun b _ => helpers_emitBlock specOf b)
  rw [Emitted.stack, hvalue, hhelpers]

/-! ## Without the calls -/

mutual

/-- **The plain translation of a block**: its rule, applied to the plain
translations in its slots. -/
def plain (specOf : String → String) (b : Block) : Token :=
  (emitBlockOf specOf b (b.inputs.map (fun e => (e.1, plainInput specOf e.2)))).value
termination_by sizeOf b
decreasing_by exact sizeOf_lt_of_mem_inputs ‹_›

/-- The plain translation of an input: a stack is the statements of its
blocks, and nothing has to run before them. -/
def plainInput (specOf : String → String) : Input → Reading
  | .block b => ⟨⟨plain specOf b, [], []⟩, ⟨.stack [plain specOf b], [], []⟩, none⟩
  | .stack blocks => .same ⟨.stack (blocks.map (plain specOf)), [], []⟩
  | .arguments values =>
    let es := values.map (fun v => (plainInput specOf v).expression)
    ⟨(Emitted.all es).map .list, (Emitted.all es).map .list, some es⟩
  | input => readInput specOf input
termination_by input => sizeOf input

end

/-- An item number is translated into the reading of its variable. -/
theorem plain_itemNumber (specOf : String → String) {b : Block}
    (h : b.opcode = Opcode.itemNumber) :
    plain specOf b = .op "readVariable" [.text (indexVariable b.id)] := by
  rw [plain]
  rw [Opcode.itemNumber] at h
  simp only [emitBlockOf, h]
  rfl

mutual

/-- **The second token is the first one without index calls.** -/
inductive Strips : Token → Token → Prop where
  | same (t : Token) : Strips t t
  | list {ts us : List Token} (h : List.Forall₂ Strips ts us) : Strips (.list ts) (.list us)
  | op {name : String} {ts us : List Token} (h : List.Forall₂ Strips ts us) :
      Strips (.op name ts) (.op name us)
  | stack {ts us : List Token} (h : StripsAll ts us) : Strips (.stack ts) (.stack us)

/-- **The second stack is the first one without index calls.** -/
inductive StripsAll : List Token → List Token → Prop where
  | nil : StripsAll [] []
  | call {id : String} {ts us : List Token} (rest : StripsAll ts us) :
      StripsAll (indexCall id :: ts) us
  | statement {t u : Token} {ts us : List Token} (first : Strips t u) (rest : StripsAll ts us) :
      StripsAll (t :: ts) (u :: us)

end

/-- Calls in front of a stack are stripped. -/
theorem StripsAll.calls {rs : List Block} {ts us : List Token} (h : StripsAll ts us) :
    StripsAll (indexCalls rs ++ ts) us := by
  induction rs with
  | nil => exact h
  | cons r rest ih => exact .call ih

/-- The operations of the rules preserve stripping. -/
theorem congruence_strips : Congruence Strips where
  refl := .same
  op _ _ _ h := .op h
  backward t u h := by
    have hrest : ∀ t u, Strips t u → Strips (.op "-" [.nat 0, t]) (.op "-" [.nat 0, u]) :=
      fun t u h => .op (.cons (.same _) (.cons h .nil))
    cases h with
    | same => exact .same _
    | list h => exact hrest _ _ (.list h)
    | op h => exact hrest _ _ (.op h)
    | stack h => exact hrest _ _ (.stack h)

/-- Stripping a stack strips its statements. -/
theorem stripsAll_statements {specOf : String → String} {blocks : List Block}
    (h : ∀ b ∈ blocks, Strips (emitBlock specOf b).value (plain specOf b)) :
    StripsAll (statements specOf blocks) (blocks.map (plain specOf)) := by
  induction blocks with
  | nil => exact .nil
  | cons b rest ih =>
    rw [List.forall_mem_cons] at h
    rw [statements, List.flatMap_cons, List.append_assoc]
    exact .calls (.statement h.1 (ih h.2))

/-- **Without the calls a translation is the plain one.** -/
theorem strips_hereditary (specOf : String → String) :
    Block.Hereditary (fun b => Strips (emitBlock specOf b).value (plain specOf b))
      (fun input => (readInput specOf input).Related Strips (plainInput specOf input)) where
  owner b ih := by
    rw [emitBlock_eq, plain]
    refine value_emitBlockOf_congr congruence_strips specOf b (fun slot => ?_)
    rw [slotReading_map, slotReading_map]
    cases hinput : b.input? slot with
    | none => exact ⟨.same _, .same _, .nil⟩
    | some input => exact ih (slot, input) (SlotMap.mem_of_find? hinput)
  flat input hflat := by
    have hinput : plainInput specOf input = readInput specOf input := by
      cases input with
      | block _ | stack _ | arguments _ => exact hflat.elim
      | _ => simp only [plainInput]
    rw [hinput]
    exact ⟨.same _, .same _, List.forall₂_same.mpr (fun _ _ => .same _)⟩
  block b ih := by
    rw [plainInput]
    refine ⟨ih, .stack ?_, .nil⟩
    -- a block in the place of a stack is a stack of one, with its own calls in front
    show StripsAll (((emitBlock specOf b).before ++ [(emitBlock specOf b).value]) ++ []) _
    rw [before_emitBlock, List.append_nil]
    exact .calls (.statement ih .nil)
  stack blocks ih := by
    have hstack : (readInput specOf (.stack blocks)).expression.value
        = .stack (statements specOf blocks) := by
      show Token.stack (Emitted.stack (emitAll specOf blocks)).value = _
      rw [stack_emitAll]
    have hstrips := Strips.stack (stripsAll_statements ih)
    rw [← hstack] at hstrips
    rw [plainInput]
    exact ⟨hstrips, hstrips, .nil⟩
  arguments values ih := by
    have hvalues : List.Forall₂ (fun e e' : Emitted Token => Strips e.value e'.value)
        (expressions specOf values) (values.map (fun v => (plainInput specOf v).expression)) := by
      rw [expressions_eq_map, List.forall₂_map_left_iff, List.forall₂_map_right_iff,
        List.forall₂_same]
      exact fun v hv => (ih v hv).expression
    have hlist : Strips (.list (Emitted.all (expressions specOf values)).value)
        (.list (Emitted.all (values.map (fun v => (plainInput specOf v).expression))).value) :=
      .list (List.forall₂_map_left_iff.mpr (List.forall₂_map_right_iff.mpr hvalues))
    rw [plainInput]
    exact ⟨hlist, hlist, hvalues⟩

/-! ## What a statement reads -/

/-- **What a block reads is read by a block that its translation goes
through**, outside stacks. -/
theorem namesRead_hereditary (specOf : String → String) (name : Token) :
    Block.Hereditary
      (fun b => name ∈ (emitBlock specOf b).value.namesRead →
        ∃ r ∈ passed false b, ReadsVariable specOf r name)
      (fun input => ∀ mode, name ∈ ((readInput specOf input).as mode).value.namesRead →
        ∃ r ∈ passedInput false mode input, ReadsVariable specOf r name) where
  owner b ih h := by
    rw [passed_eq]
    rcases readsVariable_or_exists_entered h with hown | ⟨e, he, h⟩
    · exact ⟨b, List.mem_append_right _ List.mem_cons_self, hown⟩
    · obtain ⟨slot, hmem⟩ := exists_slot_of_mem_entered he
      obtain ⟨r, hr, hreads⟩ := ih (slot, e.2) hmem e.1 h
      exact ⟨r, List.mem_append_left _ (List.mem_flatMap.mpr ⟨e, he, hr⟩), hreads⟩
  flat input hflat mode h := by
    cases input with
    | block _ | stack _ | arguments _ => exact hflat.elim
    | _ => cases mode <;> cases h
  block b ih mode h := by
    cases mode with
    | expression =>
      rw [passedInput]
      exact ih h
    | body => cases h
  stack blocks _ mode h := by
    cases mode <;> cases h
  arguments values ih mode h := by
    rw [as_arguments, Emitted.map, Token.namesRead, Token.namesReadAll_eq_flatMap, Emitted.all,
      expressions_eq_map, List.map_map, List.flatMap_map, List.mem_flatMap] at h
    obtain ⟨v, hv, h⟩ := h
    obtain ⟨r, hr, hreads⟩ := ih v hv .expression h
    rw [passedInput]
    exact ⟨r, List.mem_flatMap.mpr ⟨v, hv, hr⟩, hreads⟩

/-- **No index variable is read before it is computed**: a variable that a
block reads outside stacks is that of an item number whose call is in front of
the block, or is named by the reporter of a variable. -/
theorem index_computed_of_mem_namesRead {specOf : String → String} {b : Block} {name : Token}
    (h : name ∈ (emitBlock specOf b).value.namesRead) :
    (∃ r ∈ itemNumbers false b, name = .text (indexVariable r.id))
      ∨ ∃ r ∈ passed false b, r.opcode = "data_variable"
        ∧ name = slotExpression specOf r "VARIABLE" := by
  obtain ⟨r, hr, ⟨hitem, hname⟩ | hdata⟩ := (namesRead_hereditary specOf name).forall_block b h
  · exact .inl ⟨r, List.mem_filter.mpr ⟨hr, decide_eq_true hitem⟩, hname⟩
  · exact .inr ⟨r, hr, hdata⟩

/-! ## Scripts -/

end ScratchLegacy.Legacy
