import Mathlib.Data.List.Forall2
import ScratchLegacy.Proofs.BlockTree
import ScratchLegacy.Legacy.Emission

/-!
# The rules of emission

More than a hundred opcodes are translated by a handful of rules
(`Legacy.Rule`): the token is constant, or an operation on the arguments of a
form, or one of three special cases. `Legacy.rule_of_block` goes through the
opcodes once, and everything about all of them is read off the rules.

What a block leads the translation to is listed by `Legacy.entered`, slot by
slot in the order in which the rule asks for them. Two facts are all that the
rest needs: what comes before a block and what comes beside it is collected
along that list (`Legacy.part_emitBlock`), and its token is a function of the
tokens in its slots (`Legacy.value_emitBlockOf_congr`).
-/

namespace ScratchLegacy.Legacy

/-! ## What a block leads to -/

/-- **The arguments that the translation of an opcode asks for**, in order.
Those of a call are its inputs, whatever they are. -/
def reads : String → List Argument
  | "looks_gotofrontback" | "looks_costumenumbername" | "looks_backdropnumbername"
  | "argument_reporter_string_number" | "argument_reporter_boolean" | "procedures_definition"
  | "procedures_call" => []
  | "looks_goforwardbackwardlayers" => [.slot "NUM"]
  | "data_itemnumoflist" => [.slot "LIST", .slot "ITEM"]
  | opcode => ((form? opcode).map Form.arguments).getD []

/-- **How what fills a slot is translated.** -/
inductive Mode where
  /-- As an expression. -/
  | expression
  /-- As a stack of statements. -/
  | body
deriving DecidableEq

/-- A reading in one of the two modes. -/
def Reading.as (r : Reading) : Mode → Emitted Token
  | .expression => r.expression
  | .body => r.body

/-- What an argument leads to in a block. -/
def Argument.entered (b : Block) : Argument → List (Mode × Input)
  | .slot name => ((b.input? name).map (fun input => (.expression, input))).toList
  | .body name => ((b.input? name).map (fun input => (.body, input))).toList
  | .word _ => []

/-- What a call leads to: the arguments that it hands over. -/
def callEntered (b : Block) : List (Mode × Input) :=
  match b.input? "INPUTS" with
  | some (.arguments values) => [(.expression, .arguments values)]
  | _ => []

/-- **What the translation of a block leads to**, in order. -/
def entered (b : Block) : List (Mode × Input) :=
  if b.opcode = Opcode.call then callEntered b else (reads b.opcode).flatMap (Argument.entered b)

/-- A block leads only to what fills its slots. -/
theorem exists_slot_of_mem_entered {b : Block} {e : Mode × Input} (h : e ∈ entered b) :
    ∃ slot, (slot, e.2) ∈ b.inputs := by
  unfold entered at h
  split at h
  · unfold callEntered at h
    split at h
    · next values hinput =>
      cases List.mem_singleton.mp h
      exact ⟨"INPUTS", SlotMap.mem_of_find? hinput⟩
    · cases h
  · obtain ⟨a, _, h⟩ := List.mem_flatMap.mp h
    cases a with
    | slot name | body name =>
      obtain ⟨input, hinput, rfl⟩ := Option.map_eq_some_iff.mp (Option.mem_toList.mp h)
      exact ⟨name, SlotMap.mem_of_find? hinput⟩
    | word text => cases h

/-! ## The variables that a token reads -/

mutual

/-- **The names of the variables that a token reads**, as tokens, except for
those read in stacks. -/
def Token.namesRead : Token → List Token
  | .value _ | .stack _ => []
  | .list items => namesReadAll items
  | .op name arguments =>
    (if name = "readVariable" then arguments else []) ++ namesReadAll arguments

/-- The names of the variables that several tokens read. -/
def Token.namesReadAll : List Token → List Token
  | [] => []
  | t :: rest => t.namesRead ++ namesReadAll rest

end

/-- Several tokens read what each of them reads. -/
theorem Token.namesReadAll_eq_flatMap (ts : List Token) :
    Token.namesReadAll ts = ts.flatMap Token.namesRead := by
  induction ts with
  | nil => rfl
  | cons t rest ih => rw [Token.namesReadAll, ih, List.flatMap_cons]

/-- Any other operation than a reading reads what its arguments read. -/
theorem Token.namesRead_op {name : String} (h : name ≠ "readVariable") (arguments : List Token) :
    (Token.op name arguments).namesRead = arguments.flatMap Token.namesRead := by
  rw [Token.namesRead, if_neg h, Token.namesReadAll_eq_flatMap, List.nil_append]

/-- Literals read no variable. -/
theorem Token.namesReadAll_value (vs : List Json) : Token.namesReadAll (vs.map .value) = [] := by
  rw [Token.namesReadAll_eq_flatMap, List.flatMap_map, List.flatMap_eq_nil_iff]
  exact fun _ _ => rfl

/-- The defaults that a definition declares are literals. -/
theorem exists_declared_eq (parameters : List Parameter) :
    ∃ vs : List Json, (declared parameters).map Prod.snd = vs.map Token.value := by
  induction parameters with
  | nil => exact ⟨[], rfl⟩
  | cons parameter rest ih =>
    obtain ⟨vs, hvs⟩ := ih
    cases parameter with
    | label text => exact ⟨vs, hvs⟩
    | value name default => exact ⟨.text "" :: vs, congrArg (_ :: ·) hvs⟩
    | boolean name default => exact ⟨.bool false :: vs, congrArg (_ :: ·) hvs⟩

/-- The head of a procedure's script reads no variable. -/
theorem namesRead_emitDefinition (signature : Option Signature) :
    (emitDefinition signature).namesRead = [] := by
  cases signature with
  | none => rfl
  | some s =>
    obtain ⟨vs, hvs⟩ := exists_declared_eq s.parameters
    have hnames : (declared s.parameters).map (fun p => Token.text p.1)
        = ((declared s.parameters).map (fun p => Json.text p.1)).map .value := by
      rw [List.map_map]
      rfl
    show [] ++ ([] ++ (Token.namesReadAll _ ++ (Token.namesReadAll _ ++ ([] ++ [])))) = []
    rw [hvs, hnames, Token.namesReadAll_value, Token.namesReadAll_value]
    rfl

/-! ## The rules -/

/-- **How the translation of a block comes about**, from the readings of its
slots. -/
inductive Rule (specOf : String → String) (b : Block) : Prop where
  /-- The token does not depend on the slots. -/
  | constant (token : Token) (notCall : b.opcode ≠ Opcode.call)
      (notItemNumber : b.opcode ≠ Opcode.itemNumber) (reads : reads b.opcode = [])
      (readsNone : token.namesRead = [])
      (emit : ∀ readings, emitBlockOf specOf b readings = ⟨token, [], []⟩)
  /-- The number of layers is taken as it is or backward. -/
  | layers (forward : Bool) (opcode : b.opcode = "looks_goforwardbackwardlayers")
      (emit : ∀ readings, emitBlockOf specOf b readings =
        (slotReading readings "NUM").expression.map (fun layers =>
          .op "goBackByLayers:" [if forward then backward layers else layers]))
  /-- The reporter that the legacy format lacks. -/
  | itemNumber (opcode : b.opcode = Opcode.itemNumber)
      (emit : ∀ readings, emitBlockOf specOf b readings =
        emitItemNumber b.id (slotReading readings "LIST").expression
          (slotReading readings "ITEM").expression)
  /-- The call of a procedure. -/
  | call (spec : String) (opcode : b.opcode = Opcode.call)
      (emit : ∀ readings, emitBlockOf specOf b readings =
        (Emitted.all ((slotReading readings "INPUTS").arguments.getD [])).map
          (fun values => .op "call" (.text spec :: values)))
  /-- An operation on the arguments of a form. -/
  | form (form : Form) (found : form? b.opcode = some form) (notCall : b.opcode ≠ Opcode.call)
      (notItemNumber : b.opcode ≠ Opcode.itemNumber) (reads : reads b.opcode = form.arguments)
      (emit : ∀ readings, emitBlockOf specOf b readings =
        (Emitted.all (form.arguments.map (Argument.emit readings))).map (.op form.operation))

/-- **Every block is translated by one of the rules.** -/
theorem rule_of_block (specOf : String → String) (b : Block) : Rule specOf b := by
  by_cases hconstant : b.opcode ∈ ["looks_gotofrontback", "looks_costumenumbername",
      "looks_backdropnumbername", "argument_reporter_string_number", "argument_reporter_boolean",
      "procedures_definition"]
  · simp only [List.mem_cons, List.not_mem_nil, or_false] at hconstant
    have hreads : reads b.opcode = [] ∧ b.opcode ≠ Opcode.call
        ∧ b.opcode ≠ Opcode.itemNumber := by
      rcases hconstant with h | h | h | h | h | h <;> rw [h] <;> decide
    have hnone : (emitBlockOf specOf b []).value.namesRead = [] := by
      rcases hconstant with h | h | h | h | h | h <;> simp only [emitBlockOf, h]
      · split <;> rfl
      · split <;> rfl
      · split <;> rfl
      · rfl
      · rfl
      · exact namesRead_emitDefinition b.signature
    refine .constant (emitBlockOf specOf b []).value hreads.2.1 hreads.2.2 hreads.1 hnone
      (fun readings => ?_)
    rcases hconstant with h | h | h | h | h | h <;> simp only [emitBlockOf, h]
    split <;> rfl
  by_cases hlayers : b.opcode = "looks_goforwardbackwardlayers"
  · refine .layers (decide (shownText b "FORWARD_BACKWARD" = "forward")) hlayers
      (fun readings => ?_)
    simp only [emitBlockOf, hlayers]
    by_cases hforward : shownText b "FORWARD_BACKWARD" = "forward" <;> simp [hforward]
  by_cases hitem : b.opcode = Opcode.itemNumber
  · refine .itemNumber hitem (fun readings => ?_)
    rw [Opcode.itemNumber] at hitem
    simp only [emitBlockOf, hitem]
  by_cases hcall : b.opcode = Opcode.call
  · refine .call (specOf (b.proccode?.getD "")) hcall (fun readings => ?_)
    rw [Opcode.call] at hcall
    simp only [emitBlockOf, hcall]
  -- what is left is in the table of forms or has no translation
  simp only [List.mem_cons, List.not_mem_nil, or_false, not_or] at hconstant
  obtain ⟨_, _, _, _, _, _⟩ := hconstant
  have hreads : reads b.opcode = ((form? b.opcode).map Form.arguments).getD [] := by
    unfold reads
    split <;> first | contradiction | rfl
  have hemit : ∀ readings, emitBlockOf specOf b readings =
      ((form? b.opcode).map (fun form =>
        (Emitted.all (form.arguments.map (Argument.emit readings))).map
          (.op form.operation))).getD ⟨.op "undefined" [.text b.opcode], [], []⟩ := by
    intro readings
    unfold emitBlockOf
    split <;> first | contradiction | (cases form? b.opcode <;> rfl)
  cases hform : form? b.opcode with
  | none =>
    rw [hform] at hreads
    refine .constant (.op "undefined" [.text b.opcode]) hcall hitem hreads rfl
      (fun readings => ?_)
    rw [hemit, hform]
    rfl
  | some form =>
    rw [hform] at hreads
    refine .form form hform hcall hitem hreads (fun readings => ?_)
    rw [hemit, hform]
    rfl

/-! ## The readings of slots -/

/-- The slots of a block are translated one by one. -/
theorem readSlots_eq_map (specOf : String → String) (inputs : List (String × Input)) :
    readSlots specOf inputs = inputs.map (fun e => (e.1, readInput specOf e.2)) := by
  induction inputs with
  | nil => rfl
  | cons e rest ih => rw [readSlots, ih, List.map_cons]

/-- The blocks of a stack are translated one by one. -/
theorem emitAll_eq_map (specOf : String → String) (blocks : List Block) :
    emitAll specOf blocks = blocks.map (emitBlock specOf) := by
  induction blocks with
  | nil => rfl
  | cons b rest ih => rw [emitAll, ih, List.map_cons]

/-- The arguments of a call are translated one by one. -/
theorem expressions_eq_map (specOf : String → String) (values : List Input) :
    expressions specOf values = values.map (fun v => (readInput specOf v).expression) := by
  induction values with
  | nil => rfl
  | cons v rest ih => rw [expressions, ih, List.map_cons]

/-- A block is translated by its opcode from the readings of its slots. -/
theorem emitBlock_eq (specOf : String → String) (b : Block) :
    emitBlock specOf b
      = emitBlockOf specOf b (b.inputs.map (fun e => (e.1, readInput specOf e.2))) := by
  cases b
  rw [emitBlock, readSlots_eq_map]

/-- **The reading of a slot** is that of what fills it, and nothing where
nothing does. -/
theorem slotReading_map (f : Input → Reading) (b : Block) (slot : String) :
    slotReading (b.inputs.map (fun e => (e.1, f e.2))) slot
      = ((b.input? slot).map f).getD (.same ⟨.null, [], []⟩) := by
  unfold slotReading Block.input?
  congr 1
  induction b.inputs with
  | nil => rfl
  | cons e rest ih =>
    rw [List.map_cons, Entries.find?, SlotMap.find?]
    split
    · rfl
    · exact ih

/-- A stack reads the same in either mode. -/
theorem as_stack (specOf : String → String) (blocks : List Block) (mode : Mode) :
    (readInput specOf (.stack blocks)).as mode
      = (Emitted.stack (emitAll specOf blocks)).map .stack := by
  cases mode <;> rfl

/-- The arguments of a call read the same in either mode. -/
theorem as_arguments (specOf : String → String) (values : List Input) (mode : Mode) :
    (readInput specOf (.arguments values)).as mode
      = (Emitted.all (expressions specOf values)).map .list := by
  cases mode <;> rfl

/-! ## What is collected along the way -/

/-- The call of the hidden procedure that computes an index variable. -/
def indexCall (id : String) : Token := .op "call" [.text (indexSpec id)]

/-- **Something that translations collect**: the statements that have to run
before, or the scripts that have to be added. -/
structure Collection (α : Type) where
  /-- What a result has collected. -/
  part : {β : Type} → Emitted β → List α
  /-- What an item number adds, given its id and the expressions in its
  slots. -/
  own : String → Token → Token → List α
  /-- Whether it goes on from a stack of statements to what the stack is in. -/
  deep : Bool
  part_mk : ∀ {β : Type} (value : β), part ⟨value, [], []⟩ = []
  part_map : ∀ {β γ : Type} (f : β → γ) (e : Emitted β), part (e.map f) = part e
  part_all : ∀ {β : Type} (es : List (Emitted β)), part (Emitted.all es) = es.flatMap part
  part_stack : ∀ es : List (Emitted Token),
    part (Emitted.stack es) = if deep then es.flatMap part else []
  part_itemNumber : ∀ (id : String) (list item : Emitted Token),
    part (emitItemNumber id list item) = part list ++ part item ++ own id list.value item.value

/-- **The calls**, which stay within the statement that they belong to. -/
def Collection.calls : Collection Token where
  part := Emitted.before
  own id _ _ := [indexCall id]
  deep := false
  part_mk _ := rfl
  part_map _ _ := rfl
  part_all _ := rfl
  part_stack _ := rfl
  part_itemNumber _ _ _ := rfl

/-- **The hidden procedures**, which go to the target. -/
def Collection.procedures : Collection Script where
  part := Emitted.helpers
  own id list item := [indexProcedure id list item]
  deep := true
  part_mk _ := rfl
  part_map _ _ := rfl
  part_all _ := rfl
  part_stack _ := rfl
  part_itemNumber _ _ _ := rfl

section Collected

variable (specOf : String → String) (b : Block) {α : Type} (c : Collection α)

/-- The readings of the slots of a block. -/
def slotReadings : List (String × Reading) :=
  b.inputs.map (fun e => (e.1, readInput specOf e.2))

/-- The expression in a slot. -/
def slotExpression (slot : String) : Token :=
  (slotReading (slotReadings specOf b) slot).expression.value

/-- **An argument is what an input that it leads to reads as**, or a literal. -/
theorem emit_argument_cases (a : Argument) :
    (∃ e ∈ a.entered b, a.emit (slotReadings specOf b) = (readInput specOf e.2).as e.1)
      ∨ ∃ v, a.emit (slotReadings specOf b) = ⟨.value v, [], []⟩ := by
  cases a with
  | slot name | body name =>
    rw [Argument.emit, Argument.entered, slotReadings, slotReading_map]
    cases b.input? name with
    | none => exact .inr ⟨_, rfl⟩
    | some input => exact .inl ⟨_, List.mem_cons_self, rfl⟩
  | word text => exact .inr ⟨_, rfl⟩

/-- **An argument collects what the input that it leads to collects.** -/
theorem part_argument (a : Argument) :
    c.part (a.emit (slotReadings specOf b))
      = (a.entered b).flatMap (fun e => c.part ((readInput specOf e.2).as e.1)) := by
  cases a with
  | slot name =>
    show c.part (slotReading (slotReadings specOf b) name).expression = _
    rw [slotReadings, slotReading_map, Argument.entered]
    cases b.input? name with
    | none => exact c.part_mk _
    | some input => exact (List.append_nil _).symm
  | body name =>
    show c.part (slotReading (slotReadings specOf b) name).body = _
    rw [slotReadings, slotReading_map, Argument.entered]
    cases b.input? name with
    | none => exact c.part_mk _
    | some input => exact (List.append_nil _).symm
  | word text => exact c.part_mk _

/-- The arguments of an operation collect what the inputs that they lead to
collect. -/
theorem part_arguments (notCall : b.opcode ≠ Opcode.call) :
    ((reads b.opcode).map (Argument.emit (slotReadings specOf b))).flatMap c.part
      = (entered b).flatMap (fun e => c.part ((readInput specOf e.2).as e.1)) := by
  rw [entered, if_neg notCall, List.flatMap_map, List.flatMap_assoc]
  exact List.flatMap_congr (fun a _ => part_argument specOf b c a)

/-- The arguments of a call collect what the input that they are collects. -/
theorem part_call (call : b.opcode = Opcode.call) :
    ((slotReading (slotReadings specOf b) "INPUTS").arguments.getD []).flatMap c.part
      = (entered b).flatMap (fun e => c.part ((readInput specOf e.2).as e.1)) := by
  rw [slotReadings, slotReading_map, entered, if_pos call, callEntered]
  cases b.input? "INPUTS" with
  | none => rfl
  | some input =>
    show ((readInput specOf input).arguments.getD []).flatMap c.part = _
    cases input with
    | arguments values =>
      have hlist : c.part ((readInput specOf (.arguments values)).as .expression)
          = (expressions specOf values).flatMap c.part := by
        rw [readInput, Reading.as, c.part_map, c.part_all]
      exact ((List.append_nil _).trans hlist).symm
    | _ => rfl

/-- **A block collects what the inputs that it leads to collect**, in order,
and an item number adds its own behind that. -/
theorem part_emitBlock :
    c.part (emitBlock specOf b)
      = (entered b).flatMap (fun e => c.part ((readInput specOf e.2).as e.1))
        ++ if b.opcode = Opcode.itemNumber then
            c.own b.id (slotExpression specOf b "LIST") (slotExpression specOf b "ITEM")
          else [] := by
  rw [emitBlock_eq, ← slotReadings]
  cases rule_of_block specOf b with
  | constant token notCall notItemNumber reads _ emit =>
    rw [emit, c.part_mk, if_neg notItemNumber, entered, if_neg notCall, reads]
    rfl
  | layers forward opcode emit =>
    rw [emit, c.part_map, if_neg (by rw [opcode]; decide),
      ← part_arguments specOf b c (by rw [opcode]; decide), opcode, List.append_nil]
    exact (List.append_nil _).symm
  | itemNumber opcode emit =>
    rw [emit, c.part_itemNumber, if_pos opcode,
      ← part_arguments specOf b c (by rw [opcode]; decide), opcode]
    show _ = (_ ++ (_ ++ [])) ++ _
    rw [List.append_nil]
    rfl
  | call spec opcode emit =>
    rw [emit, c.part_map, c.part_all, if_neg (by rw [opcode]; decide), List.append_nil,
      part_call specOf b c opcode]
  | form form found notCall notItemNumber reads emit =>
    rw [emit, c.part_map, c.part_all, if_neg notItemNumber, List.append_nil,
      ← part_arguments specOf b c notCall, reads]

end Collected

/-! ## The token of a block -/

/-- **Readings with related tokens**, whatever they have collected. -/
structure Reading.Related (R : Token → Token → Prop) (r r' : Reading) : Prop where
  expression : R r.expression.value r'.expression.value
  body : R r.body.value r'.body.value
  arguments : List.Forall₂ (fun e e' => R e.value e'.value) (r.arguments.getD [])
    (r'.arguments.getD [])

/-- **A relation that the operations of the rules preserve.** -/
structure Congruence (R : Token → Token → Prop) : Prop where
  refl : ∀ t, R t t
  op : ∀ name ts us, List.Forall₂ R ts us → R (.op name ts) (.op name us)
  backward : ∀ t u, R t u → R (backward t) (backward u)

/-- **The token of a block is a function of the tokens in its slots.** -/
theorem value_emitBlockOf_congr {R : Token → Token → Prop} (hR : Congruence R)
    (specOf : String → String) (b : Block) {readings readings' : List (String × Reading)}
    (h : ∀ slot, (slotReading readings slot).Related R (slotReading readings' slot)) :
    R (emitBlockOf specOf b readings).value (emitBlockOf specOf b readings').value := by
  have hvalues : ∀ {es es' : List (Emitted Token)},
      List.Forall₂ (fun e e' => R e.value e'.value) es es' →
        List.Forall₂ R (Emitted.all es).value (Emitted.all es').value :=
    fun hes => List.forall₂_map_left_iff.mpr (List.forall₂_map_right_iff.mpr hes)
  cases rule_of_block specOf b with
  | constant token _ _ _ _ emit =>
    rw [emit, emit]
    exact hR.refl token
  | layers forward _ emit =>
    rw [emit, emit]
    have hlayers := (h "NUM").expression
    refine hR.op _ _ _ (.cons ?_ .nil)
    cases forward
    · exact hlayers
    · exact hR.backward _ _ hlayers
  | itemNumber _ emit =>
    rw [emit, emit]
    exact hR.refl _
  | call spec _ emit =>
    rw [emit, emit]
    exact hR.op _ _ _ (.cons (hR.refl _) (hvalues (h "INPUTS").arguments))
  | form form _ _ _ _ emit =>
    rw [emit, emit]
    refine hR.op _ _ _ (hvalues ?_)
    rw [List.forall₂_map_left_iff, List.forall₂_map_right_iff, List.forall₂_same]
    intro a _
    cases a with
    | slot name => exact (h name).expression
    | body name => exact (h name).body
    | word text => exact hR.refl _

/-! ## The variables that a block reads -/

/-- **A block reads a variable by itself**: an item number the index variable,
and the reporter of a variable what its slot names. -/
def ReadsVariable (specOf : String → String) (b : Block) (name : Token) : Prop :=
  (b.opcode = Opcode.itemNumber ∧ name = .text (indexVariable b.id))
    ∨ (b.opcode = "data_variable" ∧ name = slotExpression specOf b "VARIABLE")

/-- Among the forms only the reporter of a variable reads a variable. -/
theorem form_readVariable : ∀ form ∈ forms, form.operation = "readVariable" →
    form.opcode = "data_variable" ∧ form.arguments = [.slot "VARIABLE"] := by
  decide +kernel

section Reads

variable {specOf : String → String} {b : Block} {name : Token}

/-- What an argument reads is read where it leads to. -/
theorem exists_entered_of_mem_namesRead {a : Argument}
    (h : name ∈ (a.emit (slotReadings specOf b)).value.namesRead) :
    ∃ e ∈ a.entered b, name ∈ ((readInput specOf e.2).as e.1).value.namesRead := by
  rcases emit_argument_cases specOf b a with ⟨e, he, heq⟩ | ⟨v, heq⟩
  · exact ⟨e, he, heq ▸ h⟩
  · rw [heq] at h
    cases h

/-- Going backward reads what the layers read. -/
theorem mem_namesRead_of_backward {t : Token} (h : name ∈ (backward t).namesRead) :
    name ∈ t.namesRead := by
  unfold backward at h
  split at h
  · cases h
  · rw [Token.namesRead_op (by decide), List.mem_flatMap] at h
    obtain ⟨u, hu, h⟩ := h
    rcases List.mem_cons.mp hu with rfl | hu
    · cases h
    · exact List.mem_singleton.mp hu ▸ h

/-- **What a block reads it reads by itself, or where it leads to.** -/
theorem readsVariable_or_exists_entered (h : name ∈ (emitBlock specOf b).value.namesRead) :
    ReadsVariable specOf b name
      ∨ ∃ e ∈ entered b, name ∈ ((readInput specOf e.2).as e.1).value.namesRead := by
  rw [emitBlock_eq, ← slotReadings] at h
  have hentered : b.opcode ≠ Opcode.call → ∀ a ∈ reads b.opcode,
      name ∈ (a.emit (slotReadings specOf b)).value.namesRead →
        ∃ e ∈ entered b, name ∈ ((readInput specOf e.2).as e.1).value.namesRead := by
    intro notCall a ha hname
    obtain ⟨e, he, hname⟩ := exists_entered_of_mem_namesRead hname
    rw [entered, if_neg notCall]
    exact ⟨e, List.mem_flatMap.mpr ⟨a, ha, he⟩, hname⟩
  cases rule_of_block specOf b with
  | constant token _ _ _ readsNone emit =>
    rw [emit, readsNone] at h
    cases h
  | layers forward opcode emit =>
    rw [emit, Emitted.map, Token.namesRead_op (by decide), List.flatMap_singleton] at h
    have hlayers : name ∈ ((Argument.slot "NUM").emit (slotReadings specOf b)).value.namesRead := by
      cases forward
      · exact h
      · exact mem_namesRead_of_backward h
    exact .inr (hentered (by rw [opcode]; decide) _ (by rw [opcode]; exact List.mem_cons_self)
      hlayers)
  | itemNumber opcode emit =>
    rw [emit] at h
    exact .inl (.inl ⟨opcode, List.mem_singleton.mp h⟩)
  | call spec opcode emit =>
    rw [emit, Emitted.map, Token.namesRead_op (by decide), List.flatMap_cons,
      Token.text, Token.namesRead, List.nil_append] at h
    rw [slotReadings, slotReading_map] at h
    refine .inr ?_
    rw [entered, if_pos opcode, callEntered]
    cases hinput : b.input? "INPUTS" with
    | none =>
      rw [hinput] at h
      cases h
    | some input =>
      rw [hinput] at h
      cases input with
      | arguments values =>
        refine ⟨(.expression, .arguments values), List.mem_cons_self, ?_⟩
        show name ∈ (Token.list (Emitted.all (expressions specOf values)).value).namesRead
        rw [Token.namesRead, Token.namesReadAll_eq_flatMap]
        exact h
      | _ => cases h
  | form form found notCall notItemNumber reads emit =>
    rw [emit, Emitted.map] at h
    -- the reporter of a variable has the name at hand and in what its slot leads to
    by_cases hread : form.operation = "readVariable"
    · have hform : form.opcode = b.opcode := by simpa using List.find?_some found
      obtain ⟨hopcode, harguments⟩ :=
        form_readVariable form (List.mem_of_find?_eq_some found) hread
      rw [hread, harguments] at h
      rcases List.mem_cons.mp h with hname | h
      · exact .inl (.inr ⟨hform ▸ hopcode, hname⟩)
      · refine .inr (hentered notCall (.slot "VARIABLE") ?_ ?_)
        · rw [reads, harguments]
          exact List.mem_cons_self
        · change name ∈ _ ++ [] at h
          rwa [List.append_nil] at h
    · rw [Token.namesRead_op hread, Emitted.all, List.map_map, List.flatMap_map,
        List.mem_flatMap] at h
      obtain ⟨a, ha, h⟩ := h
      exact .inr (hentered notCall a (by rwa [reads]) h)

end Reads

end ScratchLegacy.Legacy
